import SchemaModels.Proofs.Text.Word

namespace SchemaModels.Text

variable {α : Type} {f : List Char → Option α} {keyword : String}

/-- A reader that takes the keyword as a whole word, with blanks behind it. -/
structure ReadsKeyword (keyword : String) (f : List Char → Option α) : Prop where
  isKeyword : IsKeyword keyword
  reads : ∀ {cs a}, f cs = some a →
    ∃ word gap rest, Spells keyword word ∧ IsGap gap ∧ cs = word ++ (gap ++ rest)

namespace ReadsKeyword

theorem eq_none (hf : ReadsKeyword keyword f) {c : Char} (hc : (letterOf c).isAlpha = false)
    (cs : List Char) : f (c :: cs) = none := by
  rw [Option.eq_none_iff_forall_ne_some]
  intro a ha
  obtain ⟨word, gap, rest, hword, -, heq⟩ := hf.reads ha
  obtain ⟨hne, -⟩ := isWord_of_spells hf.isKeyword hword
  obtain ⟨d, word, rfl⟩ := List.exists_cons_of_ne_nil hne
  obtain ⟨rfl, -⟩ := List.cons_eq_cons.1 heq
  have hletter : letterOf c ∈ keyword.toList := by
    rw [← (spells_iff hf.isKeyword).1 hword]
    exact List.mem_cons_self
  rw [hf.isKeyword.isAlpha _ hletter] at hc
  cases hc

theorem of_isWholeWord (hf : ReadsKeyword keyword f) {word rest : List Char}
    (hword : IsWholeWord word rest) {a : α} (h : f (word ++ rest) = some a) :
    Spells keyword word ∧ ∃ gap rest', IsGap gap ∧ rest = gap ++ rest' := by
  obtain ⟨word', gap, rest', hspells, hgap, heq⟩ := hf.reads h
  have hword' : IsWholeWord word' (gap ++ rest') :=
    hspells.isWholeWord hf.isKeyword (hgap.wordEnds_append rest')
  obtain rfl : word = word' := hword.unique hword' heq
  exact ⟨hspells, gap, rest', hgap, List.append_cancel_left heq⟩

theorem eq_none_of_spells (hf : ReadsKeyword keyword f) {keyword' : String}
    (hkeyword' : IsKeyword keyword') (hne : keyword' ≠ keyword) {word rest : List Char}
    (hspells : Spells keyword' word) (hends : wordEnds rest = true) : f (word ++ rest) = none := by
  rw [Option.eq_none_iff_forall_ne_some]
  intro a ha
  obtain ⟨hspells', -⟩ := hf.of_isWholeWord (hspells.isWholeWord hkeyword' hends) ha
  exact hne (hspells.unique hspells' hkeyword' hf.isKeyword)

end ReadsKeyword

theorem letterOf_of_not_isWord {c : Char} (h : isWord c = false) :
    (letterOf c).isAlpha = false := by
  rw [← Bool.not_eq_true]
  intro halpha
  rw [isWord_of_folds halpha ((folds_iff halpha).2 rfl)] at h
  cases h

theorem letterOf_of_isDigit {c : Char} (h : c.isDigit = true) : (letterOf c).isAlpha = false := by
  have hrange : 48 ≤ c.toNat ∧ c.toNat ≤ 57 := by
    simpa [Char.isDigit, UInt32.le_iff_toNat_le] using h
  have hcodes : ∀ n < 58, 48 ≤ n → (letterOf (Char.ofNat n)).isAlpha = false := by decide
  exact of_codes (P := fun c => (letterOf c).isAlpha = false) hcodes hrange.1
    (Nat.lt_succ_of_le hrange.2)

/-- A part without letters that ends outside words is passed over. -/
theorem searchBoundary_append (hf : ReadsKeyword keyword f) {part : List Char}
    (hletters : ∀ c ∈ part, (letterOf c).isAlpha = false)
    (hlast : ∀ c ∈ part.getLast?, isWord c = false) (rest : List Char) :
    searchBoundary f false (part ++ rest) = searchBoundary f false rest := by
  -- Only the last character of the part decides what the search finds behind it.
  have hpass (inWord : Bool) : searchBoundary f inWord (part ++ rest) =
      searchBoundary f ((part.getLast?.map isWord).getD inWord) rest := by
    clear hlast
    induction part generalizing inWord with
    | nil => rfl
    | cons c part ih =>
      rw [List.forall_mem_cons] at hletters
      rw [List.cons_append, searchBoundary, hf.eq_none hletters.1, ite_self, ih hletters.2,
        List.getLast?_cons]
      cases part.getLast? <;> rfl
  rw [hpass]
  cases hend : part.getLast? with
  | none => rfl
  | some c => rw [Option.map_some, Option.getD_some, hlast c hend]

theorem searchBoundary_noWord (hf : ReadsKeyword keyword f) {part : List Char}
    (hpart : ∀ c ∈ part, isWord c = false) (rest : List Char) :
    searchBoundary f false (part ++ rest) = searchBoundary f false rest :=
  searchBoundary_append hf (fun c hc => letterOf_of_not_isWord (hpart c hc))
    (fun c hc => hpart c (List.mem_of_getLast? hc)) rest

/-- In a whole word nothing is read but at its front. -/
theorem searchBoundary_word (hf : ReadsKeyword keyword f) {word rest : List Char}
    (h : IsWholeWord word rest) :
    searchBoundary f false (word ++ rest) =
      (f (word ++ rest)).or (searchBoundary f false rest) := by
  -- There is no boundary within the word.
  have hinside {cs : List Char} (hcs : ∀ c ∈ cs, isWord c = true) :
      searchBoundary f true (cs ++ rest) = searchBoundary f true rest := by
    induction cs with
    | nil => rfl
    | cons c cs ih =>
      rw [List.forall_mem_cons] at hcs
      rw [List.cons_append, searchBoundary, hcs.1, ih hcs.2]
      rfl
  have hbehind : searchBoundary f true rest = searchBoundary f false rest := by
    cases rest with
    | nil => rfl
    | cons c rest =>
      have hc := wordEnds_iff.1 h.wordEnds c rfl
      rw [searchBoundary, searchBoundary, hf.eq_none (letterOf_of_not_isWord hc), ite_self,
        ite_self]
  obtain ⟨c, cs, rfl⟩ := List.exists_cons_of_ne_nil h.notEmpty
  have hclass := List.forall_mem_cons.1 h.isWord
  rw [List.cons_append, searchBoundary, hclass.1, hinside hclass.2, hbehind,
    Option.orElse_eq_orElse, Option.orElse_eq_or]
  rfl

theorem searchBoundary_append_eq_none {cs back : List Char} {inWord : Bool}
    (h : searchBoundary f inWord cs = none)
    (hfront : ∀ start, f start = none → f (start ++ back) = none)
    (hback : ∀ inWord, searchBoundary f inWord back = none) :
    searchBoundary f inWord (cs ++ back) = none := by
  induction cs generalizing inWord with
  | nil => exact hback inWord
  | cons c cs ih =>
    rw [searchBoundary, Option.orElse_eq_orElse, Option.orElse_eq_or, Option.or_eq_none_iff] at h
    rw [List.cons_append, searchBoundary, ih h.2, Option.orElse_eq_orElse, Option.orElse_eq_or,
      Option.or_none]
    by_cases hstart : (inWord != isWord c) = true
    · rw [if_pos hstart] at h ⊢
      exact hfront _ h.1
    · rw [if_neg hstart]

end SchemaModels.Text
