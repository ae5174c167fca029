import Mathlib.Data.List.Forall2
import SchemaModels.Proofs.Text.Parts

namespace SchemaModels.Text

theorem inRanges_eq_false_of_apart {table others : List (Nat × Nat)} {c : Char}
    (hapart : ∀ r ∈ table, ∀ s ∈ others, r.2 < s.1 ∨ s.2 < r.1) (h : inRanges table c = true) :
    inRanges others c = false := by
  obtain ⟨r, hr, hin⟩ := List.any_eq_true.1 h
  rw [Bool.and_eq_true, decide_eq_true_eq, decide_eq_true_eq] at hin
  refine List.any_eq_false.2 fun s hs => ?_
  rw [Bool.and_eq_true, decide_eq_true_eq, decide_eq_true_eq]
  have := hapart r hr s hs
  omega

theorem isWord_of_isBlank {c : Char} (h : isBlank c = true) : isWord c = false := by
  rw [isBlank, Bool.or_eq_true, Bool.or_eq_true] at h
  rcases h with (h | h) | h
  · rw [eq_of_beq h]
    decide +kernel
  · rw [Bool.and_eq_true, decide_eq_true_eq, decide_eq_true_eq] at h
    have hcodes : ∀ n < 14, 9 ≤ n → isWord (Char.ofNat n) = false := by decide +kernel
    exact of_codes (P := fun c => isWord c = false) hcodes h.1 (Nat.lt_succ_of_le h.2)
  · rw [Bool.and_eq_true, Bool.not_eq_true'] at h
    obtain ⟨hascii, hin⟩ := h
    rw [isWord, hascii, if_neg Bool.false_ne_true, Bool.or_eq_false_iff]
    constructor <;> refine inRanges_eq_false_of_apart ?_ hin
    · decide +kernel
    · decide +kernel

theorem isBlank_of_isWord {c : Char} (h : isWord c = true) : isBlank c = false := by
  rw [← Bool.not_eq_true]
  intro hblank
  rw [isWord_of_isBlank hblank] at h
  cases h

def Spells (keyword : String) (word : List Char) : Prop :=
  List.Forall₂ (fun letter c => folds letter c = true) keyword.toList word

instance (keyword : String) (word : List Char) : Decidable (Spells keyword word) :=
  inferInstanceAs (Decidable (List.Forall₂ _ _ _))

structure IsGap (gap : List Char) : Prop where
  notEmpty : gap ≠ []
  isBlank : ∀ c ∈ gap, isBlank c = true

theorem isGap_space : IsGap [' '] := ⟨List.cons_ne_nil _ _, List.forall_mem_singleton.2 rfl⟩

theorem afterLetters_eq_some_iff {letters cs rest : List Char} :
    afterLetters letters cs = some rest ↔
      ∃ word, List.Forall₂ (fun letter c => folds letter c = true) letters word ∧
        cs = word ++ rest := by
  fun_induction afterLetters letters cs with
  | case1 cs =>
    constructor
    · rintro ⟨⟩
      exact ⟨[], .nil, rfl⟩
    · rintro ⟨word, hword, rfl⟩
      cases hword
      rfl
  | case2 letter letters c cs hfolds ih =>
    rw [ih]
    constructor
    · rintro ⟨word, hword, rfl⟩
      exact ⟨c :: word, .cons hfolds hword, rfl⟩
    · rintro ⟨word, hword, heq⟩
      cases hword with
      | cons _ hword =>
        obtain ⟨rfl, rfl⟩ := List.cons_eq_cons.1 heq
        exact ⟨_, hword, rfl⟩
  | case3 letter letters c cs hfolds =>
    refine iff_of_false (Option.some_ne_none rest).symm ?_
    rintro ⟨word, hword, heq⟩
    cases hword with
    | cons hfolds' _ =>
      obtain ⟨rfl, -⟩ := List.cons_eq_cons.1 heq
      exact hfolds hfolds'
  | case4 letter letters =>
    refine iff_of_false (Option.some_ne_none rest).symm ?_
    rintro ⟨word, hword, heq⟩
    cases hword
    cases heq

theorem afterKeyword_eq_some_iff {keyword : String} {cs rest : List Char} :
    afterKeyword keyword cs = some rest ↔ ∃ word, Spells keyword word ∧ cs = word ++ rest :=
  afterLetters_eq_some_iff

theorem afterBlanks_eq_some_iff {cs rest : List Char} :
    afterBlanks cs = some rest ↔
      ∃ gap, IsGap gap ∧ cs = gap ++ rest ∧ ∀ c ∈ rest.head?, isBlank c = false := by
  constructor
  · intro h
    cases cs with
    | nil => cases h
    | cons c cs =>
      rw [afterBlanks, Option.ite_none_right_eq_some, Option.some.injEq] at h
      obtain ⟨hc, rfl⟩ := h
      refine ⟨c :: cs.takeWhile isBlank, ⟨List.cons_ne_nil _ _, ?_⟩, ?_,
        fun d hd => of_mem_head?_dropWhile hd⟩
      · exact List.forall_mem_cons.2 ⟨hc, fun d hd => List.mem_takeWhile_imp hd⟩
      · rw [List.cons_append, List.takeWhile_append_dropWhile]
  · rintro ⟨gap, ⟨hne, hblank⟩, rfl, hrest⟩
    obtain ⟨c, gap, rfl⟩ := List.exists_cons_of_ne_nil hne
    rw [List.forall_mem_cons] at hblank
    rw [List.cons_append, afterBlanks, if_pos hblank.1, dropWhile_append_eq hblank.2 hrest]

/-- A keyword of letters, at least one. -/
structure IsKeyword (keyword : String) : Prop where
  notEmpty : keyword.toList ≠ []
  isAlpha : ∀ letter ∈ keyword.toList, letter.isAlpha = true

theorem isKeyword_iff {keyword : String} :
    IsKeyword keyword ↔ keyword.toList ≠ [] ∧ keyword.toList.all Char.isAlpha = true := by
  rw [List.all_eq_true]
  exact ⟨fun h => ⟨h.notEmpty, h.isAlpha⟩, fun h => ⟨h.1, h.2⟩⟩

instance (keyword : String) : Decidable (IsKeyword keyword) := decidable_of_iff' _ isKeyword_iff

theorem isWord_of_spells {keyword : String} {word : List Char} (hkeyword : IsKeyword keyword)
    (h : Spells keyword word) : word ≠ [] ∧ ∀ c ∈ word, isWord c = true := by
  have hmem {letters word : List Char}
      (h : List.Forall₂ (fun letter c => folds letter c = true) letters word)
      (halpha : ∀ letter ∈ letters, letter.isAlpha = true) : ∀ c ∈ word, isWord c = true := by
    induction h with
    | nil => simp
    | cons hfolds _ ih =>
      rw [List.forall_mem_cons] at halpha ⊢
      exact ⟨isWord_of_folds halpha.1 hfolds, ih halpha.2⟩
  refine ⟨?_, hmem h hkeyword.isAlpha⟩
  rintro rfl
  exact hkeyword.notEmpty (List.forall₂_nil_right_iff.1 h)

/-- The letter that a character stands for in a keyword. -/
def letterOf (c : Char) : Char :=
  if c = '\u017f' then 's' else if c = '\u212a' then 'k' else c.toLower

theorem folds_iff {letter c : Char} (h : letter.isAlpha = true) :
    folds letter c = true ↔ letterOf c = letter := by
  have hs : letter ≠ '\u017f' := fun heq => absurd (heq ▸ h) (by decide)
  have hk : letter ≠ '\u212a' := fun heq => absurd (heq ▸ h) (by decide)
  have hs' : Char.toLower '\u017f' = '\u017f' := by decide
  have hk' : Char.toLower '\u212a' = '\u212a' := by decide
  unfold letterOf folds
  split
  · rename_i hc
    rw [hc, hs']
    simp [hs.symm]
    exact eq_comm
  · split
    · rename_i hc
      rw [hc, hk']
      simp [hk.symm]
      exact eq_comm
    · rename_i hc hc'
      simp [hc, hc']

theorem spells_iff {keyword : String} {word : List Char} (hkeyword : IsKeyword keyword) :
    Spells keyword word ↔ word.map letterOf = keyword.toList := by
  have hletters : ∀ letters, (∀ letter ∈ letters, letter.isAlpha = true) →
      (List.Forall₂ (fun letter c => folds letter c = true) letters word ↔
        word.map letterOf = letters) := by
    intro letters halpha
    induction word generalizing letters with
    | nil =>
      rw [List.forall₂_nil_right_iff, List.map_nil]
      exact eq_comm
    | cons c word ih =>
      cases letters with
      | nil => simp
      | cons letter letters =>
        rw [List.forall_mem_cons] at halpha
        rw [List.forall₂_cons, List.map_cons, List.cons_eq_cons, folds_iff halpha.1,
          ih letters halpha.2]
  exact hletters _ hkeyword.isAlpha

theorem Spells.unique {keyword keyword' : String} {word : List Char} (h : Spells keyword word)
    (h' : Spells keyword' word) (hkeyword : IsKeyword keyword) (hkeyword' : IsKeyword keyword') :
    keyword = keyword' := by
  rw [spells_iff hkeyword] at h
  rw [spells_iff hkeyword'] at h'
  exact String.toList_inj.1 (h.symm.trans h')

theorem isWord_head_append {word : List Char} (hne : word ≠ [])
    (hword : ∀ c ∈ word, isWord c = true) (rest : List Char) :
    ∀ c ∈ (word ++ rest).head?, isWord c = true := by
  intro c hc
  rw [List.head?_append_of_ne_nil word hne] at hc
  exact hword c (List.mem_of_mem_head? hc)

theorem notBlank_head_append {word : List Char} (hne : word ≠ [])
    (hword : ∀ c ∈ word, isWord c = true) (rest : List Char) :
    ∀ c ∈ (word ++ rest).head?, isBlank c = false :=
  fun c hc => isBlank_of_isWord (isWord_head_append hne hword rest c hc)

theorem afterPhrase_eq_some_iff {first second : String} {cs rest : List Char}
    (hsecond : IsKeyword second) :
    afterPhrase first second cs = some rest ↔
      ∃ word gap word', Spells first word ∧ IsGap gap ∧ Spells second word' ∧
        cs = word ++ gap ++ word' ++ rest := by
  simp only [afterPhrase, Option.bind_eq_bind, Option.bind_eq_some_iff, afterKeyword_eq_some_iff,
    afterBlanks_eq_some_iff]
  constructor
  · rintro ⟨_, ⟨word, hword, rfl⟩, _, ⟨gap, hgap, rfl, -⟩, word', hword', rfl⟩
    exact ⟨word, gap, word', hword, hgap, hword', by simp⟩
  · rintro ⟨word, gap, word', hword, hgap, hword', rfl⟩
    obtain ⟨hne, hclass⟩ := isWord_of_spells hsecond hword'
    exact ⟨gap ++ word' ++ rest, ⟨word, hword, by simp⟩, word' ++ rest,
      ⟨gap, hgap, by simp, notBlank_head_append hne hclass rest⟩, word', hword', rfl⟩

section Search

variable {α : Type} {f : List Char → Option α}

theorem search_eq_some_iff {cs : List Char} {a : α} :
    search f cs = some a ↔ ∃ front start, cs = front ++ start ∧ f start = some a ∧
      ∀ front' start', cs = front' ++ start' → front'.length < front.length → f start' = none := by
  induction cs with
  | nil =>
    constructor
    · intro h
      exact ⟨[], [], rfl, h, by simp⟩
    · rintro ⟨front, start, heq, h, -⟩
      obtain ⟨rfl, rfl⟩ := List.append_eq_nil_iff.1 heq.symm
      exact h
  | cons c cs ih =>
    rw [search, Option.orElse_eq_orElse, Option.orElse_eq_or, Option.or_eq_some_iff, ih]
    -- The result is that for the whole text, or there is none and it is found in the rest.
    constructor
    · rintro (h | ⟨hnone, front, start, rfl, h, hfirst⟩)
      · exact ⟨[], c :: cs, rfl, h, by simp⟩
      · refine ⟨c :: front, start, rfl, h, fun front' start' heq hlt => ?_⟩
        cases front' with
        | nil => rwa [← List.nil_append start', ← heq]
        | cons d front' =>
          exact hfirst front' start' (List.cons_eq_cons.1 heq).2 (Nat.lt_of_succ_lt_succ hlt)
    · rintro ⟨front, start, heq, h, hfirst⟩
      cases front with
      | nil => exact .inl (heq ▸ h)
      | cons d front =>
        obtain ⟨rfl, rfl⟩ := List.cons_eq_cons.1 heq
        refine .inr ⟨hfirst [] _ rfl (Nat.succ_pos _), front, start, rfl, h, ?_⟩
        intro front' start' heq' hlt
        exact hfirst (c :: front') start' (congrArg (c :: ·) heq') (Nat.succ_lt_succ hlt)

theorem search_isSome {front start : List Char} (h : (f start).isSome = true) :
    (search f (front ++ start)).isSome = true := by
  induction front with
  | nil =>
    cases start with
    | nil => exact h
    | cons c start =>
      rw [List.nil_append, search, Option.orElse_eq_orElse, Option.orElse_eq_or, Option.isSome_or,
        h]
      rfl
  | cons c front ih =>
    rw [List.cons_append, search, Option.orElse_eq_orElse, Option.orElse_eq_or, Option.isSome_or,
      ih, Bool.or_true]

theorem search_eq_none_iff {cs : List Char} :
    search f cs = none ↔ ∀ front start, cs = front ++ start → f start = none := by
  constructor
  · rintro h front start rfl
    cases hstart : f start with
    | none => rfl
    | some a =>
      have hsome : (search f (front ++ start)).isSome = true :=
        search_isSome (Option.isSome_iff_exists.2 ⟨a, hstart⟩)
      rw [h] at hsome
      cases hsome
  · intro h
    rw [Option.eq_none_iff_forall_ne_some]
    intro a ha
    obtain ⟨front, start, heq, hstart, -⟩ := search_eq_some_iff.1 ha
    rw [h front start heq] at hstart
    cases hstart

end Search

end SchemaModels.Text
