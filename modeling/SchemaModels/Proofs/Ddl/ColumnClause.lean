import SchemaModels.Proofs.Ddl.Modifier
import SchemaModels.Proofs.Text.Boundary

namespace SchemaModels.Ddl

open Text

structure KeywordPart (keyword : String) where
  gap : List Char
  word : List Char
  isKeyword : IsKeyword keyword
  isGap_gap : IsGap gap
  spells_word : Spells keyword word

def KeywordPart.text {keyword : String} (part : KeywordPart keyword) : List Char :=
  part.gap ++ part.word

/-- A size behind a type, with blanks in front of it if any. -/
structure SizePart where
  space : List Char
  inside : List Char
  isBlank_space : ∀ c ∈ space, isBlank c = true
  inside_class : ∀ c ∈ inside, c.isDigit = true ∨ c = ',' ∨ isBlank c = true

def SizePart.text (s : SizePart) : List Char := s.space ++ '(' :: (s.inside ++ [')'])

structure NotNullPart where
  not : KeywordPart "not"
  null : KeywordPart "null"

def NotNullPart.text (n : NotNullPart) : List Char := n.not.text ++ n.null.text

/-- A default between single quotes. It is any text that does not itself forbid null. -/
structure DefaultPart where
  word : KeywordPart "default"
  gap : List Char
  value : String
  isGap_gap : IsGap gap
  noApostrophe : '\'' ∉ value.toList
  silent : saysNotNull value.toList = false

def DefaultPart.text (d : DefaultPart) : List Char :=
  d.word.text ++ (d.gap ++ '\'' :: (d.value.toList ++ ['\'']))

namespace KeywordPart

variable {keyword keyword' : String} (part : KeywordPart keyword) {rest : List Char}

theorem text_append (rest : List Char) : part.text ++ rest = part.gap ++ (part.word ++ rest) :=
  List.append_assoc _ _ _

theorem wordEnds_text (rest : List Char) : wordEnds (part.text ++ rest) = true := by
  rw [part.text_append]
  exact part.isGap_gap.wordEnds_append _

theorem isWholeWord_word (hends : wordEnds rest = true) : IsWholeWord part.word rest :=
  part.spells_word.isWholeWord part.isKeyword hends

variable {α : Type} {f : List Char → Option α}

/-- A search comes to a keyword at its first letter, and then to what stands behind it. -/
theorem searchBoundary_text (hf : ReadsKeyword keyword' f) (hends : wordEnds rest = true) :
    searchBoundary f false (part.text ++ rest) =
      (f (part.word ++ rest)).or (searchBoundary f false rest) := by
  rw [part.text_append, searchBoundary_noWord hf (noWord_of_blank part.isGap_gap.isBlank),
    searchBoundary_word hf (part.isWholeWord_word hends)]

theorem searchBoundary_of_ne (hf : ReadsKeyword keyword' f) (hne : keyword ≠ keyword')
    (hends : wordEnds rest = true) :
    searchBoundary f false (part.text ++ rest) = searchBoundary f false rest := by
  rw [part.searchBoundary_text hf hends,
    hf.eq_none_of_spells part.isKeyword hne part.spells_word hends, Option.none_or]

end KeywordPart

theorem NotNullPart.text_append (n : NotNullPart) (rest : List Char) :
    n.text ++ rest = n.not.text ++ (n.null.text ++ rest) := List.append_assoc _ _ _

theorem SizePart.wordEnds_text (s : SizePart) (rest : List Char) :
    wordEnds (s.text ++ rest) = true := by
  have hpart : ∀ c ∈ s.space ++ ['('], isWord c = false :=
    List.forall_mem_append.2 ⟨noWord_of_blank s.isBlank_space,
      List.forall_mem_singleton.2 (by decide)⟩
  have htext : s.text ++ rest = (s.space ++ ['(']) ++ (s.inside ++ ([')'] ++ rest)) := by
    simp [text]
  rw [htext]
  exact wordEnds_append_of_ne_nil (by simp) hpart _

theorem SizePart.noLetters (s : SizePart) : ∀ c ∈ s.text, (letterOf c).isAlpha = false := by
  have hblank {c : Char} (hc : isBlank c = true) : (letterOf c).isAlpha = false :=
    letterOf_of_not_isWord (isWord_of_isBlank hc)
  intro c hc
  simp only [text, List.mem_append, List.mem_cons, List.not_mem_nil, or_false] at hc
  rcases hc with hspace | rfl | hinside | rfl
  · exact hblank (s.isBlank_space c hspace)
  · decide
  · rcases s.inside_class c hinside with hdigit | rfl | hspace
    · exact letterOf_of_isDigit hdigit
    · decide
    · exact hblank hspace
  · decide

theorem SizePart.getLast?_text (s : SizePart) : s.text.getLast? = some ')' := by
  rw [text, ← List.cons_append, ← List.append_assoc, List.getLast?_concat]

theorem SizePart.searchBoundary_text (s : SizePart) {α : Type} {f : List Char → Option α}
    {keyword : String} (hf : ReadsKeyword keyword f) (rest : List Char) :
    searchBoundary f false (s.text ++ rest) = searchBoundary f false rest := by
  refine searchBoundary_append hf s.noLetters (fun c hc => ?_) rest
  obtain rfl := Option.some.inj (s.getLast?_text.symm.trans hc)
  decide

section Default

theorem readsKeyword_defaultClause? : ReadsKeyword "default" defaultClause? where
  isKeyword := by decide +kernel
  reads {cs a} h := by
    simp only [defaultClause?, Option.bind_eq_bind, Option.bind_eq_some_iff] at h
    obtain ⟨behind, hword, rest, hgap, -⟩ := h
    obtain ⟨word, hspells, rfl⟩ := afterKeyword_eq_some_iff.1 hword
    obtain ⟨gap, hisGap, rfl, -⟩ := afterBlanks_eq_some_iff.1 hgap
    exact ⟨word, gap, rest, hspells, hisGap, rfl⟩

theorem quoted?_append {quote : Char} {value : List Char} (h : quote ∉ value) (rest : List Char) :
    quoted? quote (quote :: (value ++ quote :: rest)) = some (quote :: (value ++ [quote])) := by
  rw [quoted?, if_pos ⟨rfl, by simp⟩, takeWhile_append_eq (bne_of_notMem h) (by simp),
    List.cons_append]

theorem unquote_quoted (value : List Char) : unquote ('\'' :: (value ++ ['\''])) = value := by
  rw [unquote, unquoteWith?, if_pos ⟨rfl, List.getLast?_concat⟩, List.dropLast_concat]
  rfl

theorem DefaultPart.defaultClause? (d : DefaultPart) :
    Ddl.defaultClause? (d.word.word ++ (d.gap ++ '\'' :: (d.value.toList ++ ['\'']))) =
      some ('\'' :: (d.value.toList ++ ['\''])) := by
  have hword (rest : List Char) : afterKeyword "default" (d.word.word ++ rest) = some rest :=
    afterKeyword_eq_some_iff.2 ⟨d.word.word, d.word.spells_word, rfl⟩
  have hgap (rest : List Char) : afterBlanks (d.gap ++ '\'' :: rest) = some ('\'' :: rest) := by
    refine afterBlanks_eq_some_iff.2 ⟨d.gap, d.isGap_gap, rfl, ?_⟩
    rintro c ⟨rfl⟩
    decide
  rw [Ddl.defaultClause?, hword, Option.bind_eq_bind, Option.bind_some, hgap, Option.bind_some,
    quoted?_append d.noApostrophe]
  rfl

end Default

section Null

def afterNotNull (cs : List Char) : Option (List Char) :=
  (afterPhrase "not" "null" cs).filter wordEnds

theorem saysNotNull_eq (cs : List Char) :
    saysNotNull cs = (searchBoundary afterNotNull false cs).isSome := rfl

theorem afterNotNull_eq_some_iff {cs rest : List Char} :
    afterNotNull cs = some rest ↔ ∃ word gap word', Spells "not" word ∧ IsGap gap ∧
      Spells "null" word' ∧ cs = word ++ gap ++ word' ++ rest ∧ wordEnds rest = true := by
  rw [afterNotNull, Option.filter_eq_some_iff, afterPhrase_eq_some_iff (by decide +kernel)]
  constructor
  · rintro ⟨⟨word, gap, word', hword, hgap, hword', rfl⟩, hends⟩
    exact ⟨word, gap, word', hword, hgap, hword', rfl, hends⟩
  · rintro ⟨word, gap, word', hword, hgap, hword', rfl, hends⟩
    exact ⟨⟨word, gap, word', hword, hgap, hword', rfl⟩, hends⟩

theorem readsKeyword_afterNotNull : ReadsKeyword "not" afterNotNull where
  isKeyword := by decide +kernel
  reads {cs rest} h := by
    obtain ⟨word, gap, word', hword, hgap, -, rfl, -⟩ := afterNotNull_eq_some_iff.1 h
    exact ⟨word, gap, word' ++ rest, hword, hgap, by simp only [List.append_assoc]⟩

theorem afterNotNull_append {cs back : List Char} (hback : ∀ c ∈ back, isWord c = false)
    (h : afterNotNull cs = none) : afterNotNull (cs ++ back) = none := by
  rw [Option.eq_none_iff_forall_ne_some]
  intro rest hrest
  obtain ⟨word, gap, word', hword, hgap, hword', heq, hends⟩ := afterNotNull_eq_some_iff.1 hrest
  obtain ⟨hne, hclass⟩ := isWord_of_spells (by decide +kernel) hword'
  rw [List.append_assoc (word ++ gap)] at heq
  obtain ⟨rest', rfl, rfl⟩ := exists_of_append_eq_word hback hne hclass heq
  have hsome : afterNotNull (word ++ gap ++ (word' ++ rest')) = some rest' :=
    afterNotNull_eq_some_iff.2 ⟨word, gap, word', hword, hgap, hword',
      (List.append_assoc _ _ _).symm, (wordEnds_append_iff hback).1 hends⟩
  rw [h] at hsome
  cases hsome

/-- A default does not forbid null, since its quotes part it from the words around it. -/
theorem DefaultPart.searchBoundary_afterNotNull (d : DefaultPart) :
    searchBoundary afterNotNull false d.text = none := by
  have hf := readsKeyword_afterNotNull
  have hvalue : searchBoundary afterNotNull false d.value.toList = none := by
    rw [← Option.not_isSome_iff_eq_none, ← saysNotNull_eq, d.silent]
    exact Bool.false_ne_true
  have hquote : ∀ c ∈ ['\''], isWord c = false := List.forall_mem_singleton.2 (by decide)
  have hbefore : ∀ c ∈ d.gap ++ ['\''], isWord c = false :=
    List.forall_mem_append.2 ⟨noWord_of_blank d.isGap_gap.isBlank, hquote⟩
  have hend (inWord : Bool) : searchBoundary afterNotNull inWord ['\''] = none := by
    rw [searchBoundary, hf.eq_none (by decide), ite_self]
    rfl
  calc searchBoundary afterNotNull false d.text
      = searchBoundary afterNotNull false (d.gap ++ '\'' :: (d.value.toList ++ ['\''])) :=
        d.word.searchBoundary_of_ne hf (by decide) (d.isGap_gap.wordEnds_append _)
    _ = searchBoundary afterNotNull false ((d.gap ++ ['\'']) ++ (d.value.toList ++ ['\''])) := by
        rw [List.append_assoc, List.singleton_append]
    _ = searchBoundary afterNotNull false (d.value.toList ++ ['\'']) :=
        searchBoundary_noWord hf hbefore _
    _ = none := searchBoundary_append_eq_none hvalue (fun _ => afterNotNull_append hquote) hend

theorem NotNullPart.afterNotNull (n : NotNullPart) {rest : List Char}
    (hends : wordEnds rest = true) :
    Ddl.afterNotNull (n.not.word ++ (n.null.text ++ rest)) = some rest :=
  afterNotNull_eq_some_iff.2 ⟨n.not.word, n.null.gap, n.null.word, n.not.spells_word,
    n.null.isGap_gap, n.null.spells_word, by simp only [KeywordPart.text, List.append_assoc], hends⟩

end Null

section Unsigned

variable {keyword : String}

theorem exists_size (size? : Option SizePart) : ∃ space group,
    size?.elim [] (·.text) = space ++ group ∧ (∀ c ∈ space, isBlank c = true) ∧
      (group = [] ∨ IsGroup group) := by
  cases size? with
  | none => exact ⟨[], [], rfl, List.forall_mem_nil _, .inl rfl⟩
  | some size =>
    refine ⟨size.space, '(' :: (size.inside ++ [')']), rfl, size.isBlank_space,
      .inr ⟨size.inside, rfl, fun hmem => ?_⟩⟩
    rcases size.inside_class _ hmem with h | h | h <;> revert h <;> decide

theorem KeywordPart.not_unsignedFollows (part : KeywordPart keyword) (hne : keyword ≠ "unsigned")
    {rest : List Char} (hends : wordEnds rest = true) (size? : Option SizePart) :
    unsignedFollows (size?.elim [] (·.text) ++ (part.text ++ rest)) = false := by
  have hunsigned : IsKeyword "unsigned" := by decide +kernel
  obtain ⟨space, group, hsize, hspace, hgroup⟩ := exists_size size?
  have hword := part.isWholeWord_word hends
  have hskip : skipGroup (size?.elim [] (·.text) ++ (part.text ++ rest)) = part.word ++ rest := by
    rw [hsize, List.append_assoc, part.text_append]
    exact skipGroup_append_word hspace hgroup part.isGap_gap.isBlank hword
  rw [unsignedFollows_eq, hskip, ← Bool.not_eq_true, Option.any_eq_true]
  rintro ⟨rest', hafter, hends'⟩
  obtain ⟨word, hspells, heq⟩ := afterKeyword_eq_some_iff.1 hafter
  have hword' : IsWholeWord word rest' := hspells.isWholeWord hunsigned hends'
  obtain rfl := hword'.unique hword heq.symm
  exact hne (part.spells_word.unique hspells part.isKeyword hunsigned)

end Unsigned

section Ends

/-- A text whose last character, if any, no trimming takes away. -/
def EndsFirm (cs : List Char) : Prop := ∀ c ∈ cs.getLast?, isBlank c = false ∧ c ≠ ','

theorem EndsFirm.append {front back : List Char} (hfront : EndsFirm front) (hback : EndsFirm back) :
    EndsFirm (front ++ back) := by
  by_cases hne : back = []
  · rwa [hne, List.append_nil]
  · rwa [EndsFirm, List.getLast?_append_of_ne_nil front hne]

theorem endsFirm_concat (front : List Char) {c : Char} (hblank : isBlank c = false)
    (hcomma : c ≠ ',') : EndsFirm (front ++ [c]) := by
  intro d hd
  rw [List.getLast?_concat] at hd
  obtain rfl := Option.some.inj hd
  exact ⟨hblank, hcomma⟩

theorem endsFirm_word {word : List Char} (front : List Char) (hne : word ≠ [])
    (hword : ∀ c ∈ word, isWord c = true) : EndsFirm (front ++ word) := by
  intro c hc
  rw [List.getLast?_append_of_ne_nil front hne] at hc
  have hclass := hword c (List.mem_of_getLast? hc)
  refine ⟨isBlank_of_isWord hclass, ?_⟩
  rintro rfl
  exact absurd hclass (by decide)

theorem endsFirm_elim {α : Type} {text : α → List Char} (part : Option α)
    (htext : ∀ a, EndsFirm (text a)) : EndsFirm (part.elim [] text) := by
  cases part with
  | none => simp [EndsFirm]
  | some a => exact htext a

theorem KeywordPart.endsFirm_text {keyword : String} (part : KeywordPart keyword) :
    EndsFirm part.text :=
  endsFirm_word part.gap (isWord_of_spells part.isKeyword part.spells_word).1
    (isWord_of_spells part.isKeyword part.spells_word).2

theorem SizePart.endsFirm_text (s : SizePart) : EndsFirm s.text := by
  intro c hc
  obtain rfl := Option.some.inj (s.getLast?_text.symm.trans hc)
  decide

theorem NotNullPart.endsFirm_text (n : NotNullPart) : EndsFirm n.text :=
  n.not.endsFirm_text.append n.null.endsFirm_text

theorem DefaultPart.endsFirm_text (d : DefaultPart) : EndsFirm d.text := by
  have htext : d.text = (d.word.text ++ (d.gap ++ '\'' :: d.value.toList)) ++ ['\''] := by
    simp [DefaultPart.text]
  rw [htext]
  exact endsFirm_concat _ (by decide) (by decide)

end Ends

end SchemaModels.Ddl
