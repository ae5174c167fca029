import SchemaModels.Proofs.Ddl.ColumnLine
import SchemaModels.Proofs.Ddl.WellFormed
import SchemaModels.Proofs.Kind.Spelling
import SchemaModels.Proofs.Text.Keyword

namespace SchemaModels

open Text

/-- A value that a list of quoted values keeps as it is. -/
structure IsPlainValue (v : String) : Prop extends IsEnumValue v where
  noApostrophe : '\'' ∉ v.toList
  noQuote : '"' ∉ v.toList

namespace Ddl

theorem isQuote_of_mem_isPlainValue {v : String} (h : IsPlainValue v) {c : Char}
    (hc : c ∈ v.toList) : isQuote c = false := by
  rw [isQuote, Bool.or_eq_false_iff, beq_eq_false_iff_ne, beq_eq_false_iff_ne]
  exact ⟨ne_of_mem_of_not_mem hc h.noApostrophe, ne_of_mem_of_not_mem hc h.noQuote⟩

/-- A value between two quotes of one kind, and blanks around them. -/
structure IsQuotedItem (value : String) (item : List Char) : Prop where
  text : ∃ front quote back, item = front ++ ([quote] ++ value.toList ++ [quote]) ++ back ∧
    isQuote quote = true ∧ (∀ c ∈ front, isBlank c = true) ∧ ∀ c ∈ back, isBlank c = true

theorem isBlank_of_isQuote {c : Char} (h : isQuote c = true) : isBlank c = false := by
  rw [isQuote, Bool.or_eq_true] at h
  rcases h with h | h <;> rw [eq_of_beq h] <;> decide

theorem enumValue_of_isQuotedItem {value : String} {item : List Char} (h : IsPlainValue value)
    (hitem : IsQuotedItem value item) : enumValue item = value.toList := by
  obtain ⟨front, quote, back, rfl, hquote, hfront, hback⟩ := hitem
  have hblank := isBlank_of_isQuote hquote
  have hquoted :
      trim ([quote] ++ value.toList ++ [quote]) = [quote] ++ value.toList ++ [quote] := by
    apply trimWhere_eq_self
    · simpa using hblank
    · simpa only [List.getLast?_concat, Option.mem_some_iff, forall_eq'] using hblank
  have hvalue : trimWhere isQuote value.toList = value.toList :=
    trimWhere_eq_self (fun c hc => isQuote_of_mem_isPlainValue h (List.mem_of_mem_head? hc))
      fun c hc => isQuote_of_mem_isPlainValue h (List.mem_of_getLast? hc)
  have hquotes : ∀ c ∈ [quote], isQuote c = true := by simpa using hquote
  calc enumValue (front ++ ([quote] ++ value.toList ++ [quote]) ++ back)
      = trim (trimWhere isQuote (trim ([quote] ++ value.toList ++ [quote]))) :=
        congrArg (fun cs => trim (trimWhere isQuote cs)) (trimWhere_append _ hfront hback)
    _ = trim value.toList := by rw [hquoted, trimWhere_append _ hquotes hquotes, hvalue]
    _ = value.toList := h.trimmed

theorem notMem_of_isQuotedItem {value : String} {item : List Char} (h : IsQuotedItem value item)
    {c : Char} (hvalue : c ∉ value.toList) (hblank : isBlank c = false)
    (hquote : isQuote c = false) : c ∉ item := by
  obtain ⟨front, quote, back, rfl, hq, hfront, hback⟩ := h
  simp only [List.mem_append, List.mem_singleton, not_or]
  have hne : c ≠ quote := fun heq => by simp [heq, hq] at hquote
  exact ⟨⟨fun hc => by simp [hfront c hc] at hblank, ⟨hne, hvalue⟩, hne⟩,
    fun hc => by simp [hback c hc] at hblank⟩

theorem firstGroup?_append {front items : List Char} (hfront : '(' ∉ front) (hitems : ')' ∉ items)
    (rest : List Char) : firstGroup? (front ++ '(' :: (items ++ ')' :: rest)) = some items := by
  rw [firstGroup?, dropWhile_append_eq (bne_of_notMem hfront) (by simp)]
  dsimp only
  rw [if_pos (by simp), takeWhile_append_eq (bne_of_notMem hitems) (by simp)]

theorem map_enumValue_of_items {values : List String} {items : List (List Char)}
    (hvalues : ∀ v ∈ values, IsPlainValue v) (hitems : List.Forall₂ IsQuotedItem values items) :
    items.map enumValue = values.map String.toList := by
  induction hitems with
  | nil => rfl
  | cons hitem _ ih =>
    rw [List.forall_mem_cons] at hvalues
    rw [List.map_cons, List.map_cons, enumValue_of_isQuotedItem hvalues.1 hitem, ih hvalues.2]

theorem enumValues_of_items {values : List String} {items : List (List Char)} (hne : values ≠ [])
    (hvalues : ∀ v ∈ values, IsPlainValue v) (hitems : List.Forall₂ IsQuotedItem values items)
    {front : List Char} (hfront : '(' ∉ front) (rest : List Char) :
    enumValues (front ++ '(' :: ([','].intercalate items ++ ')' :: rest)) =
      values.map String.toList := by
  have hmem : ∀ item ∈ items, ',' ∉ item ∧ ')' ∉ item := by
    intro item hitem
    obtain ⟨value, hvalue, hquoted⟩ := exists_of_forall₂ hitems hitem
    exact ⟨notMem_of_isQuotedItem hquoted (hvalues value hvalue).noComma (by decide) (by decide),
      notMem_of_isQuotedItem hquoted (hvalues value hvalue).noParen (by decide) (by decide)⟩
  have hparen : ')' ∉ [','].intercalate items := by
    intro hin
    rcases mem_of_mem_intercalate hin with heq | ⟨item, hitem, hin⟩
    · exact absurd heq (by decide)
    · exact (hmem item hitem).2 hin
  have hitemsNe : items ≠ [] := by
    rintro rfl
    exact hne (List.forall₂_nil_right_iff.1 hitems)
  have hread : items.map enumValue = values.map String.toList :=
    map_enumValue_of_items hvalues hitems
  have hkept : ∀ v ∈ values.map String.toList, (!v.isEmpty) = true := by
    rw [List.forall_mem_map]
    intro v hv
    simpa using (hvalues v hv).notEmpty
  rw [enumValues, firstGroup?_append hfront hparen]
  dsimp only
  rw [splitOn_intercalate hitemsNe fun item hitem => (hmem item hitem).1, hread,
    List.filter_eq_self.2 hkept]

def SpellsEnum (keyword : List Char) : Prop := keyword.map Char.toLower = "enum".toList

theorem isWord_of_spellsEnum {keyword : List Char} (h : SpellsEnum keyword) :
    keyword ≠ [] ∧ ∀ c ∈ keyword, isWord c = true :=
  isWord_of_spells (by decide +kernel) (Kind.spells_of_map_toLower h)

theorem columnKind?_of_spellsEnum {keyword : List Char} (h : SpellsEnum keyword)
    (rest : List Char) : columnKind? keyword rest = some .enum := by
  have hspelled : Kind.IsSpelledBy .enum keyword :=
    ⟨(.enum, ["enum"]), by decide, rfl, "enum", by decide, by decide, h⟩
  rw [columnKind?, Kind.ofRaw?_of_isSpelledBy hspelled]
  rfl

/-- What stands in front of the values of an enum column: its name between backticks and the word
for the type, with blanks behind each. -/
structure EnumHead where
  name : String
  gap : List Char
  keyword : List Char
  space : List Char
  isWord_name : Name.IsWord name
  isBlank_gap : ∀ c ∈ gap, isBlank c = true
  spellsEnum : SpellsEnum keyword
  isBlank_space : ∀ c ∈ space, isBlank c = true

namespace EnumHead

variable (head : EnumHead)

def text : List Char :=
  '`' :: (head.name.toList ++ '`' :: (head.gap ++ (head.keyword ++ head.space)))

def line (inside tail : List Char) : List Char := head.text ++ '(' :: (inside ++ ')' :: tail)

theorem trimWhere_line {p : Char → Bool} (hfirst : p '`' = false) (hlast : p ')' = false)
    (inside tail : List Char) :
    trimWhere p (head.line inside tail) = head.line inside (dropEndWhile p tail) := by
  have happend (tail : List Char) :
      head.line inside tail = (head.text ++ '(' :: inside ++ [')']) ++ tail := by
    simp [line]
  rw [happend tail, happend, trimWhere_append_of_ends (by simp)]
  · simpa [text] using hfirst
  · intro c hc
    rw [List.getLast?_concat, Option.mem_some_iff] at hc
    rwa [← hc]

theorem trim_line {indent : List Char} (h : ∀ c ∈ indent, isBlank c = true)
    (inside tail : List Char) : ∃ tail',
      trim (indent ++ head.line inside tail) = head.line inside tail' := by
  have htrim := trimWhere_append (head.line inside tail) h (List.forall_mem_nil _)
  rw [List.append_nil, head.trimWhere_line (by decide) (by decide)] at htrim
  exact ⟨_, htrim⟩

theorem columnText_line (inside tail : List Char) :
    ∃ tail', columnText (head.line inside tail) = head.line inside tail' := by
  rw [columnText, trim, head.trimWhere_line (by decide) (by decide),
    head.trimWhere_line (by decide) (by decide)]
  exact ⟨_, rfl⟩

theorem nextRun_line (inside tail : List Char) :
    ∃ rest rest', nextRun isWord (head.line inside tail) = (head.name.toList, rest) ∧
      nextRun isWord rest = (head.keyword, rest') := by
  obtain ⟨hne, hword⟩ := isWord_of_spellsEnum head.spellsEnum
  have hline : head.line inside tail = ['`'] ++ (head.name.toList ++ ('`' :: head.gap ++
      (head.keyword ++ (head.space ++ '(' :: (inside ++ ')' :: tail))))) := by
    simp [line, text]
  have hquote : ∀ c ∈ ['`'], isWord c = false := List.forall_mem_singleton.2 (by decide)
  have hname : head.name.toList ≠ [] := by simpa using head.isWord_name.notEmpty
  have hbetween : ∀ c ∈ '`' :: head.gap, isWord c = false := by
    rw [List.forall_mem_cons]
    exact ⟨by decide, fun c hc => isWord_of_isBlank (head.isBlank_gap c hc)⟩
  have hbehind {space : List Char} (hspace : ∀ c ∈ space, isBlank c = true) :
      ∀ c ∈ (space ++ '(' :: (inside ++ ')' :: tail)).head?, isWord c = false := by
    cases space with
    | nil =>
      rintro c ⟨rfl⟩
      decide
    | cons c space =>
      rintro _ ⟨rfl⟩
      exact isWord_of_isBlank (hspace c List.mem_cons_self)
  rw [hline]
  refine ⟨_, _, nextRun_append hquote head.isWord_name.isWord hname ?_,
    nextRun_append hbetween hword hne (hbehind head.isBlank_space)⟩
  rintro _ ⟨rfl⟩
  decide

theorem paren_notMem_text : '(' ∉ head.text := by
  have hword : isWord '(' = false := by decide
  have hblank : isBlank '(' = false := by decide
  have hname := head.isWord_name.isWord '('
  have hletters := (isWord_of_spellsEnum head.spellsEnum).2 '('
  have hgap := head.isBlank_gap '('
  have hspace := head.isBlank_space '('
  simp only [text, List.mem_cons, List.mem_append, not_or]
  grind

theorem isConstraint_line (inside tail : List Char) :
    isConstraint (head.line inside tail) = false := rfl

end EnumHead

/-- A line that declares an enum column with a group of values. Anything may follow. -/
structure IsEnumLine (name : String) (values : List String) (line : Line) : Prop where
  text : ∃ (head : EnumHead) (items : List (List Char)) (indent tail : List Char),
    line = indent ++ head.line ([','].intercalate items) tail ∧ head.name = name ∧
    List.Forall₂ IsQuotedItem values items ∧ ∀ c ∈ indent, isBlank c = true

/-- A line that declares an enum column is read as one, with its values as they are written. -/
theorem readTrimmed_of_isEnumLine {name : String} {values : List String} {line : Line}
    (hne : values ≠ []) (hvalues : ∀ v ∈ values, IsPlainValue v)
    (h : IsEnumLine name values line) :
    ∃ c, Counts line ∧ readTrimmed (trim line) = .ok c ∧ c.name = name ∧ c.kind = .enum ∧
      c.enumValues = values := by
  obtain ⟨head, items, indent, tail, rfl, rfl, hitems, hindent⟩ := h
  obtain ⟨tail', hline⟩ := head.trim_line hindent ([','].intercalate items) tail
  obtain ⟨tail'', htext⟩ := head.columnText_line ([','].intercalate items) tail'
  obtain ⟨rest, rest', hfirst, hsecond⟩ := head.nextRun_line ([','].intercalate items) tail''
  have hread : enumValues (head.line ([','].intercalate items) tail'') = values.map String.toList :=
    enumValues_of_items hne hvalues hitems head.paren_notMem_text tail''
  have hcounts : Counts (indent ++ head.line ([','].intercalate items) tail) := by
    rw [Counts, hline]
    simp [EnumHead.line, EnumHead.text, List.cons_prefix_cons]
  have hopens : ¬ (head.line ([','].intercalate items) tail').head? = some ')' := by
    simp [EnumHead.line, EnumHead.text]
  have hread' : readColumn (head.line ([','].intercalate items) tail') =
      .ok (columnOf (head.line ([','].intercalate items) tail'') head.name.toList .enum) :=
    readColumn_eq_ok.2 ⟨_, _, _, _, _, _, htext, head.isConstraint_line _ _, hfirst, hsecond,
      (isWord_of_spellsEnum head.spellsEnum).1, columnKind?_of_spellsEnum head.spellsEnum _,
      fun _ => by simpa [hread] using hne, rfl⟩
  rw [hline, readTrimmed, beq_eq_false_iff_ne.2 hopens, if_neg Bool.false_ne_true, hread']
  refine ⟨_, hcounts, rfl, String.ofList_toList, rfl, ?_⟩
  rw [columnOf, if_pos rfl, hread, List.map_map]
  simp [Function.comp_def]

end Ddl

end SchemaModels
