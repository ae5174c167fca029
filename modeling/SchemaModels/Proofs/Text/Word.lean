import SchemaModels.Proofs.Text.Keyword

namespace SchemaModels.Text

/-- A word in front of a text that does not go on with it. -/
structure IsWholeWord (word rest : List Char) : Prop where
  notEmpty : word ≠ []
  isWord : ∀ c ∈ word, isWord c = true
  wordEnds : wordEnds rest = true

theorem wordEnds_iff {cs : List Char} : wordEnds cs = true ↔ ∀ c ∈ cs.head?, isWord c = false := by
  cases cs with
  | nil => simp [wordEnds]
  | cons c cs => simp [wordEnds]

theorem wordEnds_dropWhile (cs : List Char) : wordEnds (cs.dropWhile isWord) = true := by
  rw [wordEnds_iff]
  exact fun c hc => of_mem_head?_dropWhile hc

theorem isWholeWord_takeWhile {cs : List Char} (h : cs.takeWhile isWord ≠ []) :
    IsWholeWord (cs.takeWhile isWord) (cs.dropWhile isWord) where
  notEmpty := h
  isWord := List.all_eq_true.1 List.all_takeWhile
  wordEnds := wordEnds_dropWhile cs

theorem Spells.isWholeWord {keyword : String} {word rest : List Char} (h : Spells keyword word)
    (hkeyword : IsKeyword keyword) (hends : wordEnds rest = true) : IsWholeWord word rest :=
  ⟨(isWord_of_spells hkeyword h).1, (isWord_of_spells hkeyword h).2, hends⟩

theorem IsWholeWord.takeWhile_eq {word rest : List Char} (h : IsWholeWord word rest) :
    (word ++ rest).takeWhile Text.isWord = word :=
  takeWhile_append_eq h.isWord (wordEnds_iff.1 h.wordEnds)

theorem IsWholeWord.unique {word rest word' rest' : List Char} (h : IsWholeWord word rest)
    (h' : IsWholeWord word' rest') (heq : word ++ rest = word' ++ rest') : word = word' := by
  rw [← h.takeWhile_eq, heq, h'.takeWhile_eq]

theorem IsWholeWord.nextRun_eq {word rest : List Char} (h : IsWholeWord word rest)
    {front : List Char} (hfront : ∀ c ∈ front, Text.isWord c = false) :
    nextRun Text.isWord (front ++ (word ++ rest)) = (word, rest) :=
  nextRun_append hfront h.isWord h.notEmpty (wordEnds_iff.1 h.wordEnds)

theorem wordEnds_append_iff {cs back : List Char} (hback : ∀ c ∈ back, isWord c = false) :
    wordEnds (cs ++ back) = true ↔ wordEnds cs = true := by
  cases cs with
  | nil =>
    rw [List.nil_append, wordEnds_iff]
    exact iff_of_true (fun c hc => hback c (List.mem_of_mem_head? hc)) rfl
  | cons c cs => rfl

theorem wordEnds_append_of_ne_nil {gap : List Char} (h : gap ≠ [])
    (hgap : ∀ c ∈ gap, isWord c = false) (rest : List Char) : wordEnds (gap ++ rest) = true := by
  rw [wordEnds_iff, List.head?_append_of_ne_nil gap h]
  exact fun c hc => hgap c (List.mem_of_mem_head? hc)

theorem noWord_of_blank {cs : List Char} (h : ∀ c ∈ cs, isBlank c = true) :
    ∀ c ∈ cs, isWord c = false :=
  fun c hc => isWord_of_isBlank (h c hc)

theorem IsGap.wordEnds_append {gap : List Char} (h : IsGap gap) (rest : List Char) :
    Text.wordEnds (gap ++ rest) = true :=
  wordEnds_append_of_ne_nil h.notEmpty (noWord_of_blank h.isBlank) rest

theorem IsWholeWord.append {word rest back : List Char} (h : IsWholeWord word rest)
    (hback : ∀ c ∈ back, Text.isWord c = false) : IsWholeWord word (rest ++ back) :=
  ⟨h.notEmpty, h.isWord, (wordEnds_append_iff hback).2 h.wordEnds⟩

theorem exists_of_append_eq_word {cs back front word rest : List Char}
    (hback : ∀ c ∈ back, isWord c = false) (hne : word ≠ []) (hword : ∀ c ∈ word, isWord c = true)
    (h : cs ++ back = front ++ (word ++ rest)) :
    ∃ rest', cs = front ++ (word ++ rest') ∧ rest = rest' ++ back := by
  rw [← List.append_assoc, List.append_eq_append_iff] at h
  rcases h with ⟨more, hfront, rfl⟩ | ⟨rest', rfl, rfl⟩
  · -- The word would reach into the end.
    rcases List.eq_nil_or_concat' more with rfl | ⟨more, c, rfl⟩
    · exact ⟨[], by rw [List.append_nil, hfront, List.append_nil], rfl⟩
    · have hlast : word.getLast? = some c := by
        rw [← List.getLast?_append_of_ne_nil front hne, hfront, ← List.append_assoc,
          List.getLast?_concat]
      have hc := hword c (List.mem_of_getLast? hlast)
      rw [hback c (by simp)] at hc
      cases hc
  · exact ⟨rest', List.append_assoc _ _ _, rfl⟩

theorem exists_of_nextRun {cs word rest : List Char} (h : nextRun isWord cs = (word, rest))
    (hne : word ≠ []) : ∃ front, cs = front ++ (word ++ rest) ∧
      (∀ c ∈ front, isWord c = false) ∧ IsWholeWord word rest := by
  obtain ⟨front, hcs, hfront, hword, hrest⟩ := exists_append_nextRun isWord cs
  rw [h] at hcs hword hrest
  exact ⟨front, hcs, hfront, hne, hword, wordEnds_iff.2 hrest⟩

end SchemaModels.Text
