import SchemaModels.Proofs.Ddl.ColumnClause
import SchemaModels.Proofs.Ddl.Header
import SchemaModels.Proofs.Ddl.WellFormed

namespace SchemaModels.Ddl

open Text

/-- What a line declares, part by part. -/
structure ScalarColumn where
  name : String
  gap : List Char
  type : List Char
  kind : Kind
  size? : Option SizePart
  unsigned? : Option (KeywordPart "unsigned")
  notNull? : Option NotNullPart
  default? : Option DefaultPart
  isWord_name : Name.IsWord name
  isGap_gap : IsGap gap
  isSpelledBy_type : kind.IsSpelledBy type
  kind_ne_enum : kind ≠ .enum

namespace ScalarColumn

variable (s : ScalarColumn)

def clauses : List Char :=
  s.unsigned?.elim [] (·.text) ++ (s.notNull?.elim [] (·.text) ++ s.default?.elim [] (·.text))

def behindType : List Char := s.size?.elim [] (·.text) ++ s.clauses

def text : List Char :=
  '`' :: (s.name.toList ++ '`' :: (s.gap ++ (s.type ++ s.behindType)))

def column : Column where
  name := s.name
  camelCase := Name.camelCase s.name
  kind := if s.kind = .int ∧ s.unsigned?.isSome then .uint else s.kind
  default? := s.default?.map (·.value)
  enumValues := []
  nullable := s.notNull?.isNone

end ScalarColumn

/-- A line with a declaration, commas behind it, and blanks around both. -/
structure IsScalarLine (s : ScalarColumn) (line : Line) : Prop where
  text : ∃ indent space commas space', line = indent ++ (s.text ++ (space ++ (commas ++ space'))) ∧
    (∀ c ∈ indent, isBlank c = true) ∧ (∀ c ∈ space, isBlank c = true) ∧
    (∀ c ∈ commas, c = ',') ∧ ∀ c ∈ space', isBlank c = true

theorem wordEnds_elim {α : Type} {text : α → List Char} (part : Option α) {rest : List Char}
    (htext : ∀ a, wordEnds (text a ++ rest) = true) (hrest : wordEnds rest = true) :
    wordEnds (part.elim [] text ++ rest) = true := by
  cases part with
  | none => exact hrest
  | some a => exact htext a

namespace ScalarColumn

variable (s : ScalarColumn)

theorem wordEnds_default : wordEnds (s.default?.elim [] (·.text)) = true := by
  cases s.default? with
  | none => rfl
  | some d => exact d.word.wordEnds_text _

theorem wordEnds_notNull :
    wordEnds (s.notNull?.elim [] (·.text) ++ s.default?.elim [] (·.text)) = true :=
  wordEnds_elim _ (fun n => n.text_append _ ▸ n.not.wordEnds_text _) s.wordEnds_default

theorem wordEnds_clauses : wordEnds s.clauses = true :=
  wordEnds_elim _ (fun u => u.wordEnds_text _) s.wordEnds_notNull

theorem wordEnds_behindType : wordEnds s.behindType = true :=
  wordEnds_elim _ (fun size => size.wordEnds_text _) s.wordEnds_clauses

theorem isWholeWord_name (rest : List Char) : IsWholeWord s.name.toList ('`' :: rest) where
  notEmpty := by simpa using s.isWord_name.notEmpty
  isWord := s.isWord_name.isWord
  wordEnds := rfl

theorem noWord_between : ∀ c ∈ '`' :: s.gap, isWord c = false := by
  rw [List.forall_mem_cons]
  exact ⟨by decide, noWord_of_blank s.isGap_gap.isBlank⟩

theorem isWholeWord_type : IsWholeWord s.type s.behindType := by
  obtain ⟨_, _, _, _, hkeyword, hspells⟩ := Kind.exists_of_isSpelledBy s.isSpelledBy_type
  exact hspells.isWholeWord hkeyword s.wordEnds_behindType

section Search

variable {α : Type} {f : List Char → Option α} {keyword : String}

theorem searchBoundary_text (hf : ReadsKeyword keyword f)
    (hkeyword : ∀ entry ∈ Kind.synonyms, keyword ∉ entry.2) :
    searchBoundary f false s.text = searchBoundary f false s.clauses := by
  -- The name may be the keyword itself, but no blank stands behind it.
  have hname (rest : List Char) : f (s.name.toList ++ '`' :: rest) = none := by
    rw [Option.eq_none_iff_forall_ne_some]
    intro a ha
    obtain ⟨-, gap, rest', hgap, heq⟩ := hf.of_isWholeWord (s.isWholeWord_name rest) ha
    obtain ⟨c, gap, rfl⟩ := List.exists_cons_of_ne_nil hgap.notEmpty
    obtain ⟨rfl, -⟩ := List.cons_eq_cons.1 heq
    exact absurd (hgap.isBlank _ List.mem_cons_self) (by decide)
  have htype : f (s.type ++ s.behindType) = none := by
    obtain ⟨entry, hentry, synonym, hmem, hletters, hspells⟩ :=
      Kind.exists_of_isSpelledBy s.isSpelledBy_type
    refine hf.eq_none_of_spells hletters ?_ hspells s.wordEnds_behindType
    rintro rfl
    exact hkeyword entry hentry hmem
  have hsize : searchBoundary f false s.behindType = searchBoundary f false s.clauses := by
    unfold behindType
    cases s.size? with
    | none => rfl
    | some size => exact size.searchBoundary_text hf _
  have hquote : ∀ c ∈ ['`'], isWord c = false := List.forall_mem_singleton.2 (by decide)
  calc searchBoundary f false s.text
      = searchBoundary f false (s.name.toList ++ '`' :: (s.gap ++ (s.type ++ s.behindType))) :=
        searchBoundary_noWord hf hquote _
    _ = searchBoundary f false (('`' :: s.gap) ++ (s.type ++ s.behindType)) := by
        rw [searchBoundary_word hf (s.isWholeWord_name _), hname, Option.none_or, List.cons_append]
    _ = searchBoundary f false (s.type ++ s.behindType) :=
        searchBoundary_noWord hf s.noWord_between _
    _ = searchBoundary f false s.behindType := by
        rw [searchBoundary_word hf s.isWholeWord_type, htype, Option.none_or]
    _ = searchBoundary f false s.clauses := hsize

theorem searchBoundary_clauses (hf : ReadsKeyword keyword f) (hne : "unsigned" ≠ keyword) :
    searchBoundary f false s.clauses =
      searchBoundary f false (s.notNull?.elim [] (·.text) ++ s.default?.elim [] (·.text)) := by
  unfold clauses
  cases s.unsigned? with
  | none => rfl
  | some u => exact u.searchBoundary_of_ne hf hne s.wordEnds_notNull

end Search

theorem defaultValue?_text : defaultValue? s.text = s.default?.map (·.value.toList) := by
  have hf := readsKeyword_defaultClause?
  have hdefault : searchBoundary defaultClause? false (s.default?.elim [] (·.text)) =
      s.default?.map fun d => '\'' :: (d.value.toList ++ ['\'']) := by
    cases s.default? with
    | none => rfl
    | some d =>
      have hends : wordEnds (d.gap ++ '\'' :: (d.value.toList ++ ['\''])) = true :=
        d.isGap_gap.wordEnds_append _
      rw [Option.elim_some, DefaultPart.text, d.word.searchBoundary_text hf hends,
        d.defaultClause?]
      rfl
  have hnotNull : searchBoundary defaultClause? false
      (s.notNull?.elim [] (·.text) ++ s.default?.elim [] (·.text)) =
        searchBoundary defaultClause? false (s.default?.elim [] (·.text)) := by
    cases s.notNull? with
    | none => rfl
    | some n =>
      rw [Option.elim_some, n.text_append,
        n.not.searchBoundary_of_ne hf (by decide) (n.null.wordEnds_text _),
        n.null.searchBoundary_of_ne hf (by decide) s.wordEnds_default]
  rw [defaultValue?, s.searchBoundary_text hf (by decide +kernel),
    s.searchBoundary_clauses hf (by decide), hnotNull, hdefault, Option.map_map]
  simp only [Function.comp_def, unquote_quoted]

theorem saysNotNull_text : saysNotNull s.text = s.notNull?.isSome := by
  have hf := readsKeyword_afterNotNull
  rw [saysNotNull_eq, s.searchBoundary_text hf (by decide +kernel),
    s.searchBoundary_clauses hf (by decide)]
  cases s.notNull? with
  | none =>
    rw [Option.elim_none, List.nil_append]
    cases s.default? with
    | none => rfl
    | some d =>
      rw [Option.elim_some, d.searchBoundary_afterNotNull]
      rfl
  | some n =>
    rw [Option.elim_some, n.text_append, n.not.searchBoundary_text hf (n.null.wordEnds_text _),
      n.afterNotNull s.wordEnds_default]
    rfl

theorem unsignedFollows_behindType : unsignedFollows s.behindType = s.unsigned?.isSome := by
  unfold behindType clauses
  have hends := s.wordEnds_notNull
  cases s.unsigned? with
  | some u =>
    obtain ⟨space, group, hsize, hspace, hgroup⟩ := exists_size s.size?
    rw [Option.isSome_some, unsignedFollows_iff]
    refine ⟨space, group, u.gap, u.word, _, ?_, hspace, hgroup, u.isGap_gap.isBlank,
      u.spells_word, hends⟩
    rw [hsize, Option.elim_some, List.append_assoc, u.text_append]
  | none =>
    rw [Option.elim_none, List.nil_append, Option.isSome_none]
    -- The first word behind the size is that of another clause, if there is one.
    cases s.notNull? with
    | some n =>
      rw [Option.elim_some, n.text_append]
      exact n.not.not_unsignedFollows (by decide) (n.null.wordEnds_text _) _
    | none =>
      rw [Option.elim_none, List.nil_append]
      cases s.default? with
      | some d =>
        exact d.word.not_unsignedFollows (by decide) (d.isGap_gap.wordEnds_append _) _
      | none =>
        obtain ⟨space, group, hsize, hspace, hgroup⟩ := exists_size s.size?
        have hskip : skipGroup (space ++ (group ++ ([] ++ []))) = [] :=
          skipGroup_append hspace hgroup (List.forall_mem_nil _) (by simp)
        rw [List.nil_append, List.append_nil] at hskip
        rw [unsignedFollows_eq, hsize, Option.elim_none, List.append_nil, hskip]
        rfl

theorem columnKind?_type : columnKind? s.type s.behindType = some s.column.kind := by
  rw [columnKind?, Kind.ofRaw?_of_isSpelledBy s.isSpelledBy_type, s.unsignedFollows_behindType]
  rfl

theorem endsFirm_text : EndsFirm s.text := by
  have htext : s.text =
      ('`' :: (s.name.toList ++ '`' :: s.gap) ++ s.type) ++ s.behindType := by
    simp [text]
  have htype : EndsFirm ('`' :: (s.name.toList ++ '`' :: s.gap) ++ s.type) :=
    endsFirm_word _ s.isWholeWord_type.notEmpty s.isWholeWord_type.isWord
  rw [htext]
  refine htype.append ?_
  refine (endsFirm_elim _ fun size => size.endsFirm_text).append ?_
  refine (endsFirm_elim _ fun u => u.endsFirm_text).append ?_
  exact (endsFirm_elim _ fun n => n.endsFirm_text).append
    (endsFirm_elim _ fun d => d.endsFirm_text)

end ScalarColumn

theorem exists_dropEndWhile {space commas space' : List Char}
    (hspace : ∀ c ∈ space, isBlank c = true) (hcommas : ∀ c ∈ commas, c = ',')
    (hspace' : ∀ c ∈ space', isBlank c = true) : ∃ left,
      dropEndWhile isBlank (space ++ (commas ++ space')) = left ++ commas ∧
        ∀ c ∈ left, isBlank c = true := by
  rw [← List.append_assoc, dropEndWhile_append_of_pos _ hspace']
  by_cases hne : commas = []
  · rw [hne, List.append_nil, dropEndWhile_eq_nil hspace]
    exact ⟨[], rfl, List.forall_mem_nil _⟩
  · have hlast : ∀ c ∈ (space ++ commas).getLast?, isBlank c = false := by
      intro c hc
      rw [List.getLast?_append_of_ne_nil space hne] at hc
      rw [hcommas c (List.mem_of_getLast? hc)]
      decide
    have hkept := dropEndWhile_append_of_last (by simp [hne]) hlast []
    rw [List.append_nil, dropEndWhile_eq_nil (List.forall_mem_nil _), List.append_nil] at hkept
    exact ⟨space, hkept, hspace⟩

theorem IsScalarLine.exists_trim {s : ScalarColumn} {line : Line} (h : IsScalarLine s line) :
    ∃ tail, trim line = s.text ++ tail ∧ columnText (s.text ++ tail) = s.text := by
  obtain ⟨indent, space, commas, space', rfl, hindent, hspace, hcommas, hspace'⟩ := h
  have hne : s.text ≠ [] := List.cons_ne_nil _ _
  have hkeeps {p : Char → Bool} (hquote : p '`' = false)
      (hlast : ∀ c, isBlank c = false → c ≠ ',' → p c = false) (tail : List Char) :
      trimWhere p (s.text ++ tail) = s.text ++ dropEndWhile p tail := by
    refine trimWhere_append_of_ends hne ?_ (fun c hc => ?_) tail
    · rintro c ⟨rfl⟩
      exact hquote
    · exact hlast c (s.endsFirm_text c hc).1 (s.endsFirm_text c hc).2
  have hblank := hkeeps (p := isBlank) (by decide) fun _ hc _ => hc
  have hcomma := hkeeps (p := (· == ',')) (by decide) fun _ _ hc => beq_eq_false_iff_ne.2 hc
  obtain ⟨left, htail, hleft⟩ := exists_dropEndWhile hspace hcommas hspace'
  refine ⟨left ++ commas, ?_, ?_⟩
  · have htrim := trimWhere_append (s.text ++ (space ++ (commas ++ space'))) hindent
      (List.forall_mem_nil _)
    rw [List.append_nil, hblank, htail] at htrim
    exact htrim
  · have hafter : ∀ c ∈ dropEndWhile (· == ',') left, isBlank c = true :=
      fun c hc => hleft c ((dropEndWhile_isPrefix _ _).subset hc)
    rw [columnText, hcomma, dropEndWhile_append_of_pos _ (by simpa using hcommas), trim, hblank,
      dropEndWhile_eq_nil hafter, List.append_nil]

/-- A line that declares a column of one value is read as that column. -/
theorem readTrimmed_of_isScalarLine {s : ScalarColumn} {line : Line} (h : IsScalarLine s line) :
    Counts line ∧ readTrimmed (trim line) = .ok s.column := by
  obtain ⟨tail, htrim, htext⟩ := h.exists_trim
  have hquote : ∀ c ∈ ['`'], isWord c = false := List.forall_mem_singleton.2 (by decide)
  have hfirst : nextRun isWord s.text =
      (s.name.toList, '`' :: (s.gap ++ (s.type ++ s.behindType))) :=
    (s.isWholeWord_name _).nextRun_eq hquote
  have hsecond : nextRun isWord ('`' :: (s.gap ++ (s.type ++ s.behindType))) =
      (s.type, s.behindType) := by
    rw [← List.cons_append]
    exact s.isWholeWord_type.nextRun_eq s.noWord_between
  have hkind : s.column.kind ≠ .enum := by
    simp only [ScalarColumn.column]
    split
    · decide
    · exact s.kind_ne_enum
  have hcolumn : columnOf s.text s.name.toList s.column.kind = s.column := by
    rw [columnOf, if_neg hkind, s.defaultValue?_text, s.saysNotNull_text, String.ofList_toList]
    simp [ScalarColumn.column, Function.comp_def]
  have hread : readColumn (s.text ++ tail) = .ok s.column :=
    readColumn_eq_ok.2 ⟨_, _, _, _, _, _, htext, rfl, hfirst, hsecond,
      s.isWholeWord_type.notEmpty, s.columnKind?_type, fun henum => absurd henum hkind,
      hcolumn.symm⟩
  have hcounts : Counts line := by
    rw [Counts, htrim]
    simp [ScalarColumn.text, List.cons_prefix_cons]
  have hopens : ¬ (s.text ++ tail).head? = some ')' := by simp [ScalarColumn.text]
  rw [htrim, readTrimmed, beq_eq_false_iff_ne.2 hopens, if_neg Bool.false_ne_true]
  exact ⟨hcounts, hread⟩

/-- A line of a column block that declares a column of one value gives that column and no other.
Its type is the one that is written, its default the text between the quotes, and it may hold null
unless the line says otherwise. -/
theorem column_of_isScalarLine {text : List Char} {i : Nat} {line : Line}
    (hline : (lines text)[i]? = some line) (hin : InBlock (lines text) i) {s : ScalarColumn}
    (hwritten : IsScalarLine s line) :
    Kind.ofRaw? (String.ofList s.type) = some s.kind ∧ ∃ above below,
      IsAccount (lines text) (above ++ (i, .ok s.column) :: below) ∧
      columns text = above.filterMap rowColumn? ++ s.column :: below.filterMap rowColumn? := by
  obtain ⟨hcounts, hread⟩ := readTrimmed_of_isScalarLine hwritten
  exact ⟨Kind.ofRaw?_of_isSpelledBy s.isSpelledBy_type,
    exists_columns_eq hline hin hcounts hread⟩

def amountLine : Line :=
  "  `default` BigInt\t (10, 2) UNSIGNED NoT null default 'not, (\"null\") default 7' ,, ".toList

def amountText : List Char := "CREATE TABLE t (\n".toList ++ amountLine ++ "\n)".toList

def KeywordPart.spaced (keyword word : String) (hkeyword : IsKeyword keyword)
    (h : Spells keyword word.toList) : KeywordPart keyword :=
  ⟨[' '], word.toList, hkeyword, isGap_space, h⟩

def amount : ScalarColumn where
  name := "default"
  gap := [' ']
  type := "BigInt".toList
  kind := .int
  size? := some {
    space := ['\t', ' ']
    inside := "10, 2".toList
    isBlank_space := List.all_eq_true.1 rfl
    inside_class := List.forall_iff_forall_mem.1 (by decide) }
  unsigned? := some (.spaced "unsigned" "UNSIGNED" (by decide) (by decide))
  notNull? := some ⟨.spaced "not" "NoT" (by decide) (by decide),
    .spaced "null" "null" (by decide) (by decide)⟩
  default? := some {
    word := .spaced "default" "default" (by decide) (by decide)
    gap := [' ']
    value := "not, (\"null\") default 7"
    isGap_gap := isGap_space
    noApostrophe := by decide
    silent := by decide +kernel }
  isWord_name := ⟨by decide, List.all_eq_true.1 (by decide +kernel)⟩
  isGap_gap := isGap_space
  isSpelledBy_type := by decide +kernel
  kind_ne_enum := by decide

theorem isScalarLine_amountLine : IsScalarLine amount amountLine :=
  ⟨[' ', ' '], [' '], [',', ','], [' '], rfl, List.all_eq_true.1 rfl, List.all_eq_true.1 rfl,
    by simp, List.all_eq_true.1 rfl⟩

theorem amount_column_mem : amount.column ∈ columns amountText ∧ amount.column =
    ⟨"default", "Default", .uint, some "not, (\"null\") default 7", [], false⟩ := by
  have hline : (lines amountText)[1]? = some amountLine := by decide +kernel
  have hin : InBlock (lines amountText) 1 :=
    (phase_take_eq_block_iff (by decide +kernel)).1 (by decide +kernel)
  obtain ⟨-, above, below, -, hcolumns⟩ :=
    column_of_isScalarLine hline hin isScalarLine_amountLine
  refine ⟨?_, by decide +kernel⟩
  rw [hcolumns]
  exact List.mem_append_right _ List.mem_cons_self

end SchemaModels.Ddl
