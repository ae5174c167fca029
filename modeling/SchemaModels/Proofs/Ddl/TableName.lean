import SchemaModels.Proofs.Ddl.Clause
import SchemaModels.Proofs.Text.Word

namespace SchemaModels.Ddl

open Text

/-- The words for a table that may exist, with blanks behind each. -/
structure IfNotExists where
  ifWord : List Char
  gap : List Char
  notWord : List Char
  gap' : List Char
  existsWord : List Char
  space : List Char
  spells_if : Spells "if" ifWord
  isGap_gap : IsGap gap
  spells_not : Spells "not" notWord
  isGap_gap' : IsGap gap'
  spells_exists : Spells "exists" existsWord
  isGap_space : IsGap space

def IfNotExists.text (w : IfNotExists) : List Char :=
  w.ifWord ++ w.gap ++ w.notWord ++ (w.gap' ++ (w.existsWord ++ w.space))

/-- A clause that names a table, and the text behind its name. -/
structure NamingClause where
  create : List Char
  gap : List Char
  table : List Char
  space : List Char
  ifNotExists? : Option IfNotExists
  quote? : Option Char
  name : List Char
  rest : List Char
  spells_create : Spells "create" create
  isGap_gap : IsGap gap
  spells_table : Spells "table" table
  isGap_space : IsGap space
  isQuote : ∀ quote ∈ quote?, quote = '`' ∨ quote = '"'
  isWholeWord_name : IsWholeWord name rest

namespace NamingClause

def named (c : NamingClause) : List Char := c.quote?.toList ++ (c.name ++ c.rest)

def behindWords (c : NamingClause) : List Char := c.ifNotExists?.elim [] (·.text) ++ c.named

def text (c : NamingClause) : List Char :=
  c.create ++ c.gap ++ c.table ++ (c.space ++ c.behindWords)

end NamingClause

theorem frontWord?_eq_some_iff {cs name : List Char} :
    frontWord? cs = some name ↔ ∃ rest, cs = name ++ rest ∧ IsWholeWord name rest := by
  unfold frontWord?
  constructor
  · intro h
    split at h
    · cases h
    · rename_i hne
      cases h
      exact ⟨cs.dropWhile isWord, List.takeWhile_append_dropWhile.symm, isWholeWord_takeWhile hne⟩
  · rintro ⟨rest, rfl, h⟩
    rw [h.takeWhile_eq]
    split
    · exact absurd rfl h.notEmpty
    · rfl

theorem quotedName?_eq_some_iff {cs name : List Char} :
    quotedName? cs = some name ↔ ∃ (quote? : Option Char) (rest : List Char),
      cs = quote?.toList ++ (name ++ rest) ∧ (∀ quote ∈ quote?, quote = '`' ∨ quote = '"') ∧
      IsWholeWord name rest := by
  constructor
  · intro h
    cases cs with
    | nil => cases h
    | cons c cs =>
      rw [quotedName?_cons] at h
      split at h
      · rename_i hc
        obtain ⟨rest, rfl, hname⟩ := frontWord?_eq_some_iff.1 h
        exact ⟨some c, rest, rfl, fun quote hquote => Option.mem_some.1 hquote ▸ hc, hname⟩
      · obtain ⟨rest, hcs, hname⟩ := frontWord?_eq_some_iff.1 h
        exact ⟨none, rest, hcs, by simp, hname⟩
  · rintro ⟨quote?, rest, rfl, hquote, hname⟩
    have hfront := frontWord?_eq_some_iff.2 ⟨rest, rfl, hname⟩
    cases quote? with
    | some quote =>
      rw [Option.toList_some, List.singleton_append, quotedName?_cons, if_pos (hquote quote rfl)]
      exact hfront
    | none =>
      obtain ⟨c, cs, rfl⟩ := List.exists_cons_of_ne_nil hname.notEmpty
      -- A word that is not quoted starts with no quote.
      have hc : ¬ (c = '`' ∨ c = '"') := by
        have hword := hname.isWord c List.mem_cons_self
        rintro (rfl | rfl)
        · exact absurd hword (by decide)
        · exact absurd hword (by decide)
      rw [Option.toList_none, List.nil_append, List.cons_append, quotedName?_cons, if_neg hc]
      exact hfront

theorem notBlank_head_of_quotedName? {cs name : List Char} (h : quotedName? cs = some name) :
    ∀ c ∈ cs.head?, isBlank c = false := by
  obtain ⟨quote?, rest, rfl, hquote, hname⟩ := quotedName?_eq_some_iff.1 h
  cases quote? with
  | some quote =>
    rintro _ ⟨rfl⟩
    rcases hquote quote rfl with rfl | rfl <;> decide
  | none => exact notBlank_head_append hname.notEmpty hname.isWord rest

theorem afterIfNotExists_eq_some_iff {cs rest : List Char} :
    afterIfNotExists cs = some rest ↔
      ∃ w : IfNotExists, cs = w.text ++ rest ∧ ∀ c ∈ rest.head?, isBlank c = false := by
  have hphrase {cs rest : List Char} : afterPhrase "if" "not" cs = some rest ↔
      ∃ word gap word', Spells "if" word ∧ IsGap gap ∧ Spells "not" word' ∧
        cs = word ++ gap ++ word' ++ rest := afterPhrase_eq_some_iff (by decide +kernel)
  simp only [afterIfNotExists, Option.bind_eq_bind, Option.bind_eq_some_iff, hphrase,
    afterKeyword_eq_some_iff, afterBlanks_eq_some_iff]
  constructor
  · rintro ⟨_, ⟨ifWord, gap, notWord, hif, hgap, hnot, rfl⟩, _, ⟨gap', hgap', rfl, -⟩, _,
      ⟨existsWord, hexists, rfl⟩, space, hspace, rfl, hrest⟩
    exact ⟨⟨ifWord, gap, notWord, gap', existsWord, space, hif, hgap, hnot, hgap', hexists, hspace⟩,
      by simp [IfNotExists.text], hrest⟩
  · rintro ⟨w, rfl, hrest⟩
    obtain ⟨hne, hword⟩ := isWord_of_spells (by decide +kernel) w.spells_exists
    refine ⟨w.gap' ++ (w.existsWord ++ (w.space ++ rest)),
      ⟨w.ifWord, w.gap, w.notWord, w.spells_if, w.isGap_gap, w.spells_not, ?_⟩,
      w.existsWord ++ (w.space ++ rest),
      ⟨w.gap', w.isGap_gap', rfl, notBlank_head_append hne hword _⟩, w.space ++ rest,
      ⟨w.existsWord, w.spells_exists, rfl⟩, w.space, w.isGap_space, rfl, hrest⟩
    simp [IfNotExists.text]

theorem afterWords_eq_some_iff {cs rest : List Char} :
    (afterPhrase "create" "table" cs).bind afterBlanks = some rest ↔
      ∃ create gap table space, Spells "create" create ∧ IsGap gap ∧ Spells "table" table ∧
        IsGap space ∧ cs = create ++ gap ++ table ++ (space ++ rest) ∧
        ∀ c ∈ rest.head?, isBlank c = false := by
  rw [Option.bind_eq_some_iff]
  constructor
  · rintro ⟨after, hphrase, hblanks⟩
    obtain ⟨create, gap, table, hcreate, hgap, htable, rfl⟩ :=
      (afterPhrase_eq_some_iff (by decide +kernel)).1 hphrase
    obtain ⟨space, hspace, rfl, hrest⟩ := afterBlanks_eq_some_iff.1 hblanks
    exact ⟨create, gap, table, space, hcreate, hgap, htable, hspace, rfl, hrest⟩
  · rintro ⟨create, gap, table, space, hcreate, hgap, htable, hspace, rfl, hrest⟩
    exact ⟨space ++ rest, (afterPhrase_eq_some_iff (by decide +kernel)).2
      ⟨create, gap, table, hcreate, hgap, htable, rfl⟩,
      afterBlanks_eq_some_iff.2 ⟨space, hspace, rfl, hrest⟩⟩

theorem exists_clause_of_ifNotExists {cs rest name : List Char}
    (hwords : (afterPhrase "create" "table" cs).bind afterBlanks = some rest)
    (hname : (afterIfNotExists rest).bind quotedName? = some name) :
    ∃ c : NamingClause, c.text = cs ∧ c.name = name ∧ c.ifNotExists?.isSome := by
  obtain ⟨create, gap, table, space, hcreate, hgap, htable, hspace, rfl, -⟩ :=
    afterWords_eq_some_iff.1 hwords
  obtain ⟨after, hafter, hquoted⟩ := Option.bind_eq_some_iff.1 hname
  obtain ⟨w, rfl, -⟩ := afterIfNotExists_eq_some_iff.1 hafter
  obtain ⟨quote?, rest, rfl, hquote, hword⟩ := quotedName?_eq_some_iff.1 hquoted
  exact ⟨⟨create, gap, table, space, some w, quote?, name, rest, hcreate, hgap, htable, hspace,
    hquote, hword⟩, rfl, rfl, rfl⟩

theorem exists_clause_of_quotedName? {cs rest name : List Char}
    (hwords : (afterPhrase "create" "table" cs).bind afterBlanks = some rest)
    (hname : quotedName? rest = some name) :
    ∃ c : NamingClause, c.text = cs ∧ c.name = name ∧ c.ifNotExists? = none := by
  obtain ⟨create, gap, table, space, hcreate, hgap, htable, hspace, rfl, -⟩ :=
    afterWords_eq_some_iff.1 hwords
  obtain ⟨quote?, rest, rfl, hquote, hword⟩ := quotedName?_eq_some_iff.1 hname
  exact ⟨⟨create, gap, table, space, none, quote?, name, rest, hcreate, hgap, htable, hspace,
    hquote, hword⟩, rfl, rfl, rfl⟩

namespace NamingClause

variable (c : NamingClause)

theorem quotedName?_named : quotedName? c.named = some c.name :=
  quotedName?_eq_some_iff.2 ⟨c.quote?, c.rest, rfl, c.isQuote, c.isWholeWord_name⟩

theorem notBlank_head_named : ∀ d ∈ c.named.head?, isBlank d = false :=
  notBlank_head_of_quotedName? c.quotedName?_named

theorem notBlank_head_behindWords : ∀ d ∈ c.behindWords.head?, isBlank d = false := by
  unfold behindWords
  cases c.ifNotExists? with
  | none => exact c.notBlank_head_named
  | some w =>
    obtain ⟨hne, hword⟩ := isWord_of_spells (by decide +kernel) w.spells_if
    have hhead := notBlank_head_append hne hword
      (w.gap ++ w.notWord ++ (w.gap' ++ (w.existsWord ++ w.space)) ++ c.named)
    simpa [IfNotExists.text] using hhead

theorem afterWords_text :
    (afterPhrase "create" "table" c.text).bind afterBlanks = some c.behindWords :=
  afterWords_eq_some_iff.2 ⟨c.create, c.gap, c.table, c.space, c.spells_create, c.isGap_gap,
    c.spells_table, c.isGap_space, rfl, c.notBlank_head_behindWords⟩

theorem ifNotExists_behindWords (h : c.ifNotExists?.isSome) :
    (afterIfNotExists c.behindWords).bind quotedName? = some c.name := by
  obtain ⟨w, hw⟩ := Option.isSome_iff_exists.1 h
  have hafter : afterIfNotExists c.behindWords = some c.named := by
    rw [behindWords, hw]
    exact afterIfNotExists_eq_some_iff.2 ⟨w, rfl, c.notBlank_head_named⟩
  rw [hafter, Option.bind_some, quotedName?_named]

/-- The clause has the words for a table that may exist if any clause of the same text has them. -/
def IsPreferred : Prop :=
  ∀ c' : NamingClause, c'.text = c.text → c'.ifNotExists?.isSome → c.ifNotExists?.isSome

theorem exists_isPreferred : ∃ c' : NamingClause, c'.text = c.text ∧ c'.IsPreferred := by
  by_cases h : ∃ c' : NamingClause, c'.text = c.text ∧ c'.ifNotExists?.isSome
  · obtain ⟨c', htext, hsome⟩ := h
    exact ⟨c', htext, fun _ _ _ => hsome⟩
  · exact ⟨c, rfl, fun c' htext hsome => absurd ⟨c', htext, hsome⟩ h⟩

end NamingClause

theorem clauseName?_eq_some_iff {cs name : List Char} : clauseName? cs = some name ↔
    ∃ c : NamingClause, c.text = cs ∧ c.IsPreferred ∧ c.name = name := by
  rw [clauseName?_eq_bind]
  constructor
  · intro h
    obtain ⟨rest, hwords, h⟩ := Option.bind_eq_some_iff.1 h
    rw [Option.orElse_eq_orElse, Option.orElse_eq_or, Option.or_eq_some_iff] at h
    rcases h with h | ⟨hnone, h⟩
    · obtain ⟨c, htext, hname, hsome⟩ := exists_clause_of_ifNotExists hwords h
      exact ⟨c, htext, fun _ _ _ => hsome, hname⟩
    · obtain ⟨c, htext, hname, -⟩ := exists_clause_of_quotedName? hwords h
      refine ⟨c, htext, fun c' htext' hsome => ?_, hname⟩
      -- A clause of this text with the words for an existing table would have been read first.
      have hrest : rest = c'.behindWords := by
        rw [← htext, ← htext', c'.afterWords_text] at hwords
        exact (Option.some.inj hwords).symm
      rw [hrest, c'.ifNotExists_behindWords hsome] at hnone
      cases hnone
  · rintro ⟨c, rfl, hpreferred, rfl⟩
    rw [c.afterWords_text, Option.bind_some, Option.orElse_eq_orElse, Option.orElse_eq_or]
    cases hexisting : (afterIfNotExists c.behindWords).bind quotedName? with
    | some name =>
      obtain ⟨c', htext, -, hsome⟩ := exists_clause_of_ifNotExists c.afterWords_text hexisting
      rw [c.ifNotExists_behindWords (hpreferred c' htext hsome)] at hexisting
      exact hexisting.symm
    | none =>
      have hnone : c.ifNotExists? = none := by
        by_contra hsome
        rw [c.ifNotExists_behindWords (Option.isSome_iff_ne_none.2 hsome)] at hexisting
        cases hexisting
      rw [Option.none_or, NamingClause.behindWords, hnone]
      exact c.quotedName?_named

theorem clauseName?_eq_none_iff {cs : List Char} :
    clauseName? cs = none ↔ ∀ c : NamingClause, c.text ≠ cs := by
  constructor
  · intro h c htext
    obtain ⟨c', htext', hpreferred⟩ := c.exists_isPreferred
    have hname := clauseName?_eq_some_iff.2 ⟨c', htext'.trans htext, hpreferred, rfl⟩
    rw [h] at hname
    cases hname
  · intro h
    rw [Option.eq_none_iff_forall_ne_some]
    intro name hname
    obtain ⟨c, htext, -⟩ := clauseName?_eq_some_iff.1 hname
    exact h c htext

/-- A text names no table if no clause stands in it. Otherwise it names the table of the clause that
starts first, read with the words for a table that may exist if the text there allows it. -/
theorem tableName?_eq_first_clause (text : String) :
    (tableName? text = none ↔ ∀ front (c : NamingClause), text.toList ≠ front ++ c.text) ∧
    ∀ t, tableName? text = some t ↔ ∃ front, ∃ c : NamingClause,
      text.toList = front ++ c.text ∧
      (∀ front', ∀ c' : NamingClause, text.toList = front' ++ c'.text →
        front.length ≤ front'.length) ∧
      (∀ c' : NamingClause, c'.text = c.text → c'.ifNotExists?.isSome → c.ifNotExists?.isSome) ∧
      t.text = String.ofList c.name ∧ t.camelCase = Name.camelCase t.text := by
  constructor
  · rw [tableName?, Option.map_eq_none_iff, tableNameChars?, search_eq_none_iff]
    constructor
    · intro h front c htext
      exact clauseName?_eq_none_iff.1 (h front c.text htext) c rfl
    · intro h front start htext
      rw [clauseName?_eq_none_iff]
      intro c hc
      exact h front c (hc ▸ htext)
  · intro t
    rw [tableName?, Option.map_eq_some_iff]
    simp only [tableNameChars?, search_eq_some_iff, clauseName?_eq_some_iff]
    constructor
    · rintro ⟨_, ⟨front, _, htext, ⟨c, rfl, hpreferred, rfl⟩, hfirst⟩, rfl⟩
      refine ⟨front, c, htext, fun front' c' htext' => ?_, hpreferred, rfl, rfl⟩
      by_contra hlt
      have hnone := hfirst front' c'.text htext' (Nat.lt_of_not_le hlt)
      exact clauseName?_eq_none_iff.1 hnone c' rfl
    · rintro ⟨front, c, htext, hfirst, hpreferred, hname, hcamel⟩
      refine ⟨c.name, ⟨front, c.text, htext, ⟨c, rfl, hpreferred, rfl⟩, ?_⟩, ?_⟩
      · intro front' start' htext' hlt
        rw [clauseName?_eq_none_iff]
        rintro c' rfl
        exact absurd (hfirst front' c' htext') (Nat.not_le_of_lt hlt)
      · rw [TableName.ofText, ← hname, ← hcamel]

/-- Without a name behind the words for a table that may exist, the first of them is the name. -/
example : tableName? "create table\nIF NOT EXISTS `" = some ⟨"IF", "IF"⟩ ∧
    tableName? "x_create table if not exists \"a_b`" = some ⟨"a_b", "AB"⟩ := by
  decide +kernel

end SchemaModels.Ddl
