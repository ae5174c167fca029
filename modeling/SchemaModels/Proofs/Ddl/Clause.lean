import SchemaModels.Ddl.Block
import SchemaModels.Proofs.Text.Keyword

namespace SchemaModels.Ddl

open Text

def frontWord? (cs : List Char) : Option (List Char) :=
  match cs.takeWhile isWord with
  | [] => none
  | word => some word

theorem quotedName?_cons (c : Char) (cs : List Char) :
    quotedName? (c :: cs) = frontWord? (if c = '`' ∨ c = '"' then cs else c :: cs) := by
  unfold quotedName?
  split
  · rename_i heq
    cases heq
    rfl
  · rename_i heq
    cases heq
    rfl
  · rename_i hquote hdouble
    rw [if_neg]
    · rfl
    · rintro (rfl | rfl)
      · exact hquote cs rfl
      · exact hdouble cs rfl

theorem clauseName?_eq_bind (cs : List Char) : clauseName? cs =
    ((afterPhrase "create" "table" cs).bind afterBlanks).bind fun rest =>
      (afterIfNotExists rest).bind quotedName? <|> quotedName? rest :=
  (Option.bind_assoc _ _ _).symm

theorem of_quotedName? {cs name : List Char} (h : quotedName? cs = some name) :
    name ≠ [] ∧ ∀ c ∈ name, Text.isWord c = true := by
  unfold quotedName? at h
  dsimp only at h
  split at h
  · cases h
  · rename_i hne
    cases h
    exact ⟨hne, List.all_eq_true.1 List.all_takeWhile⟩

theorem exists_quotedName?_of_clauseName? {cs name : List Char} (h : clauseName? cs = some name) :
    ∃ start, quotedName? start = some name := by
  simp only [clauseName?, Option.bind_eq_bind, Option.bind_eq_some_iff] at h
  obtain ⟨_, -, rest, -, h⟩ := h
  rw [Option.orElse_eq_orElse, Option.orElse_eq_or, Option.or_eq_some_iff] at h
  rcases h with h | ⟨-, h⟩
  · obtain ⟨start, -, hname⟩ := Option.bind_eq_some_iff.1 h
    exact ⟨start, hname⟩
  · exact ⟨rest, h⟩

theorem of_tableNameChars? {text name : List Char} (h : tableNameChars? text = some name) :
    name ≠ [] ∧ ∀ c ∈ name, Text.isWord c = true := by
  obtain ⟨_, _, -, hclause, -⟩ := search_eq_some_iff.1 h
  obtain ⟨_, hname⟩ := exists_quotedName?_of_clauseName? hclause
  exact of_quotedName? hname

theorem isWord_of_tableOfBytes? {bytes : Text.Bytes} {t : Table}
    (h : tableOfBytes? bytes = some t) : ∀ c ∈ t.names.text.toList, Text.isWord c = true := by
  obtain ⟨name, hname, rfl⟩ := Option.map_eq_some_iff.1 h
  simpa [TableName.ofText] using (of_tableNameChars? hname).2

/-- The text from the first word of a clause on, the name in it, and the text behind the name. -/
structure Clause where
  start : List Char
  name : List Char
  rest : List Char
  deriving DecidableEq

def afterQuotedName (cs : List Char) : List Char :=
  (match cs with
    | '`' :: rest | '"' :: rest => rest
    | _ => cs).dropWhile isWord

/-- The clause that starts with `start` if its name stands in front of `cs`. -/
def Clause.named? (start cs : List Char) : Option Clause :=
  (quotedName? cs).map fun name => ⟨start, name, afterQuotedName cs⟩

/-- The clause that starts here, found as its name is. -/
def clauseAt? (cs : List Char) : Option Clause := do
  let rest ← afterBlanks (← afterPhrase "create" "table" cs)
  ((afterIfNotExists rest).bind (Clause.named? cs)) <|> Clause.named? cs rest

def clause? (text : List Char) : Option Clause := search clauseAt? text

def Clause.gap (c : Clause) : List Char := (c.start.dropWhile isWord).takeWhile isBlank

theorem map_name_named? (start cs : List Char) :
    (Clause.named? start cs).map (·.name) = quotedName? cs := by
  simp [Clause.named?, Function.comp_def]

theorem map_name_clauseAt? (cs : List Char) :
    (clauseAt? cs).map (·.name) = clauseName? cs := by
  simp only [clauseAt?, clauseName?, Option.bind_eq_bind, Option.map_bind, Function.comp_def,
    Option.orElse_eq_orElse, Option.orElse_eq_or, Option.map_or, map_name_named?]

theorem map_name_clause? (text : List Char) :
    (clause? text).map (·.name) = tableNameChars? text := by
  unfold clause? tableNameChars?
  induction text with
  | nil => exact map_name_clauseAt? []
  | cons c cs ih =>
    simp only [search, Option.orElse_eq_orElse, Option.orElse_eq_or, Option.map_or, ih,
      map_name_clauseAt?]

/-- What a clause passes over in front of a text holds no parenthesis. -/
def Passes (cs rest : List Char) : Prop := ∃ front, cs = front ++ rest ∧ '(' ∉ front

theorem Passes.trans {cs mid rest : List Char} (h : Passes cs mid) (h' : Passes mid rest) :
    Passes cs rest := by
  obtain ⟨front, rfl, hfront⟩ := h
  obtain ⟨more, rfl, hmore⟩ := h'
  exact ⟨front ++ more, by simp, by simp [hfront, hmore]⟩

theorem passes_of_afterKeyword {keyword : String} (hkeyword : IsKeyword keyword)
    {cs rest : List Char} (h : afterKeyword keyword cs = some rest) : Passes cs rest := by
  obtain ⟨word, hword, rfl⟩ := afterKeyword_eq_some_iff.1 h
  refine ⟨word, rfl, fun hmem => ?_⟩
  exact absurd ((isWord_of_spells hkeyword hword).2 '(' hmem) (by decide)

theorem passes_of_afterBlanks {cs rest : List Char} (h : afterBlanks cs = some rest) :
    Passes cs rest := by
  obtain ⟨gap, hgap, rfl, -⟩ := afterBlanks_eq_some_iff.1 h
  exact ⟨gap, rfl, fun hmem => absurd (hgap.isBlank '(' hmem) (by decide)⟩

theorem passes_of_afterPhrase {first second : String} (hfirst : IsKeyword first)
    (hsecond : IsKeyword second) {cs rest : List Char}
    (h : afterPhrase first second cs = some rest) : Passes cs rest := by
  simp only [afterPhrase, Option.bind_eq_bind, Option.bind_eq_some_iff] at h
  obtain ⟨mid, hmid, after, hafter, hrest⟩ := h
  exact (passes_of_afterKeyword hfirst hmid).trans
    ((passes_of_afterBlanks hafter).trans (passes_of_afterKeyword hsecond hrest))

theorem passes_of_afterIfNotExists {cs rest : List Char} (h : afterIfNotExists cs = some rest) :
    Passes cs rest := by
  simp only [afterIfNotExists, Option.bind_eq_bind, Option.bind_eq_some_iff] at h
  obtain ⟨words, hwords, gap, hgap, last, hlast, hrest⟩ := h
  exact (passes_of_afterPhrase (by decide +kernel) (by decide +kernel) hwords).trans
    ((passes_of_afterBlanks hgap).trans
      ((passes_of_afterKeyword (by decide +kernel) hlast).trans (passes_of_afterBlanks hrest)))

theorem passes_afterQuotedName (cs : List Char) : Passes cs (afterQuotedName cs) := by
  have hword (cs : List Char) : Passes cs (cs.dropWhile isWord) := by
    refine ⟨cs.takeWhile isWord, List.takeWhile_append_dropWhile.symm, fun hmem => ?_⟩
    have hparen : isWord '(' = true := List.mem_takeWhile_imp hmem
    exact absurd hparen (by decide)
  unfold afterQuotedName
  split
  · exact Passes.trans ⟨['`'], rfl, by decide⟩ (hword _)
  · exact Passes.trans ⟨['"'], rfl, by decide⟩ (hword _)
  · exact hword cs

/-- The two words in front of a text that opens a statement, up to the text behind them. -/
structure Opening (cs create gap table rest : List Char) : Prop where
  text : cs = create ++ gap ++ table ++ rest
  create : Spells "create" create
  gap : IsGap gap
  table : Spells "table" table
  wordEnds : wordEnds rest = true

theorem Opening.gap_eq {cs create gap table rest : List Char}
    (h : Opening cs create gap table rest) : (cs.dropWhile isWord).takeWhile isBlank = gap := by
  obtain ⟨b, blanks, hgap⟩ := List.exists_cons_of_ne_nil h.gap.notEmpty
  have hb : isWord b = false := isWord_of_isBlank (h.gap.isBlank b (hgap ▸ List.mem_cons_self))
  obtain ⟨htableNe, htableWord⟩ := isWord_of_spells (by decide +kernel) h.table
  obtain ⟨t, letters, htable⟩ := List.exists_cons_of_ne_nil htableNe
  have ht : isBlank t = false := isBlank_of_isWord (htableWord t (htable ▸ List.mem_cons_self))
  obtain ⟨-, hcreateWord⟩ := isWord_of_spells (by decide +kernel) h.create
  have hdrop : cs.dropWhile isWord = gap ++ (table ++ rest) := by
    rw [h.text, List.append_assoc, List.append_assoc, List.dropWhile_append_of_pos hcreateWord,
      hgap, List.cons_append, List.dropWhile_cons_of_neg (by simp [hb])]
  rw [hdrop, List.takeWhile_append_of_pos h.gap.isBlank, htable, List.cons_append,
    List.takeWhile_cons_of_neg (by simp [ht]), List.append_nil]

theorem exists_opening {cs after rest : List Char}
    (hphrase : afterPhrase "create" "table" cs = some after)
    (hblanks : afterBlanks after = some rest) :
    ∃ create gap table, Opening cs create gap table after := by
  obtain ⟨create, gap, table, hcreate, hgap, htable, hcs⟩ :=
    (afterPhrase_eq_some_iff (by decide +kernel)).1 hphrase
  refine ⟨create, gap, table, hcs, hcreate, hgap, htable, ?_⟩
  obtain ⟨blanks, ⟨hne, hblank⟩, rfl, -⟩ := afterBlanks_eq_some_iff.1 hblanks
  obtain ⟨b, blanks, rfl⟩ := List.exists_cons_of_ne_nil hne
  simp [wordEnds, isWord_of_isBlank (hblank b List.mem_cons_self)]

/-- A clause begins with the two words, and no parenthesis stands in it. -/
theorem clauseAt?_eq_some {cs : List Char} {c : Clause} (h : clauseAt? cs = some c) :
    c.start = cs ∧ Passes cs c.rest ∧ ∃ create table rest, Opening cs create c.gap table rest := by
  simp only [clauseAt?, Option.bind_eq_bind, Option.bind_eq_some_iff] at h
  obtain ⟨after, hphrase, rest, hblanks, h⟩ := h
  have hwords : Passes cs after :=
    passes_of_afterPhrase (by decide +kernel) (by decide +kernel) hphrase
  have hrest : Passes cs rest := hwords.trans (passes_of_afterBlanks hblanks)
  -- The name may stand behind the words for an existing table, or at once.
  have hnamed : ∃ before, Passes cs before ∧ Clause.named? cs before = some c := by
    rw [Option.orElse_eq_orElse, Option.orElse_eq_or, Option.or_eq_some_iff] at h
    rcases h with h | ⟨-, h⟩
    · obtain ⟨before, hbefore, hc⟩ := Option.bind_eq_some_iff.1 h
      exact ⟨before, hrest.trans (passes_of_afterIfNotExists hbefore), hc⟩
    · exact ⟨rest, hrest, h⟩
  obtain ⟨before, hbefore, hc⟩ := hnamed
  obtain ⟨name, -, rfl⟩ := Option.map_eq_some_iff.1 hc
  obtain ⟨create, gap, table, hopening⟩ := exists_opening hphrase hblanks
  refine ⟨rfl, hbefore.trans (passes_afterQuotedName before), create, table, after, ?_⟩
  rw [Clause.gap, hopening.gap_eq]
  exact hopening

end SchemaModels.Ddl
