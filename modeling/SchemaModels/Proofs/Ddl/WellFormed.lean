import SchemaModels.Proofs.Ddl.Account
import SchemaModels.Proofs.Ddl.ColumnLine
import SchemaModels.Proofs.Discovery.Tables
import SchemaModels.Proofs.Text.Parts

namespace SchemaModels

open Text

/-- A name as a migration spells it. -/
structure Name.IsWord (s : String) : Prop where
  notEmpty : s ≠ ""
  isWord : ∀ c ∈ s.toList, Text.isWord c = true

/-- A value as it stands between two commas of a list, without the blanks around it. -/
structure IsEnumValue (v : String) : Prop where
  notEmpty : v ≠ ""
  trimmed : trim v.toList = v.toList
  noComma : ',' ∉ v.toList
  noParen : ')' ∉ v.toList
  noFeed : '\n' ∉ v.toList

structure Column.WellFormed (c : Column) : Prop where
  name : Name.IsWord c.name
  camelCase : c.camelCase = Name.camelCase c.name
  enum_iff : c.kind = .enum ↔ c.enumValues ≠ []
  enumValues : ∀ v ∈ c.enumValues, IsEnumValue v
  default : ∀ v ∈ c.default?, '\n' ∉ v.toList

/-- Only a line of unexpected format may have no name. -/
structure FailedLine.WellFormed (f : FailedLine) : Prop where
  isWord : ∀ c ∈ f.name.toList, Text.isWord c = true
  notEmpty : f.reason ≠ .unexpectedFormat → f.name ≠ ""
  camelCase : f.camelCase = Name.camelCase f.name
  unsupported : ∀ raw, f.reason = .unsupportedType raw → Name.IsWord raw ∧ Kind.ofRaw? raw = none

/-- What a model relies on in its table. -/
structure Table.Sound (t : Table) : Prop where
  name : Name.IsWord t.names.text
  camelCase : t.names.camelCase = Name.camelCase t.names.text
  columns : ∀ c ∈ t.columns, c.WellFormed

/-- A table of a text with that many lines, before tables are selected. -/
structure Table.WellFormed (t : Table) (lineCount : Nat) : Prop extends Table.Sound t where
  enabled : t.disabled = false
  failures : ∀ f ∈ t.failures, f.WellFormed
  ascending : t.failures.Pairwise fun f g => f.lineNumber < g.lineNumber
  lineNumber : ∀ f ∈ t.failures, 2 ≤ f.lineNumber ∧ f.lineNumber ≤ lineCount

namespace Ddl

theorem isWord_nextRun {cs : List Char} (h : (nextRun isWord cs).1 ≠ []) :
    Name.IsWord (String.ofList (nextRun isWord cs).1) where
  notEmpty := by simpa using h
  isWord c hc := of_mem_nextRun (String.toList_ofList ▸ hc)

theorem isWord_firstWord {cs : List Char} (h : (nextRun isWord (nextRun isWord cs).2).1 ≠ []) :
    Name.IsWord (String.ofList (nextRun isWord cs).1) := by
  apply isWord_nextRun
  intro hnil
  rw [nextRun_snd_eq_nil hnil, nextRun_nil] at h
  exact h rfl

theorem columnText_subset (line : List Char) : columnText line ⊆ line :=
  List.Subset.trans (trim_subset _) (trimWhere_subset _ line)

theorem firstWord_ne_nil_of_isConstraint {cs : List Char} (h : isConstraint cs = true) :
    (nextRun isWord cs).1 ≠ [] := by
  obtain ⟨opener, hmem, hopens⟩ := List.any_eq_true.1 h
  obtain ⟨rest, hrest, -⟩ := (Option.any_eq_true _ _).1 hopens
  simp only [constraintOpeners, List.mem_cons, List.not_mem_nil, or_false] at hmem
  rcases hmem with rfl | rfl | hmem
  · exact nextRun_ne_nil_of_afterPhrase (by decide) hrest
  · exact nextRun_ne_nil_of_afterPhrase (by decide) hrest
  · obtain ⟨keyword, hkeyword, rfl⟩ : ∃ keyword : String,
        keyword.toList.head?.any Char.isAlpha = true ∧ opener = afterKeyword keyword := by
      rcases hmem with rfl | rfl | rfl | rfl | rfl | rfl | rfl <;> exact ⟨_, by decide, rfl⟩
    exact nextRun_ne_nil_of_afterKeyword hkeyword hrest

theorem firstGroup?_eq_some {line items : List Char} (h : firstGroup? line = some items) :
    items ⊆ line ∧ ')' ∉ items := by
  unfold firstGroup? at h
  split at h
  · cases h
  · rename_i c rest hopen
    split at h
    · cases h
      refine ⟨?_, fun hmem => by simpa using List.mem_takeWhile_imp hmem⟩
      calc rest.takeWhile (· != ')')
          ⊆ rest := (List.takeWhile_prefix _).subset
        _ ⊆ c :: rest := List.subset_cons_self c rest
        _ ⊆ line := hopen ▸ (List.dropWhile_suffix _).subset
    · cases h

theorem enumValue_subset (item : List Char) : enumValue item ⊆ item :=
  List.Subset.trans (trim_subset _)
    (List.Subset.trans (trimWhere_subset isQuote _) (trim_subset item))

theorem isEnumValue_of_mem_enumValues {line v : List Char} (hfeed : '\n' ∉ line)
    (h : v ∈ enumValues line) : IsEnumValue (String.ofList v) := by
  unfold enumValues at h
  split at h
  · cases h
  · rename_i items hitems
    obtain ⟨hsub, hparen⟩ := firstGroup?_eq_some hitems
    obtain ⟨hmem, hne⟩ := List.mem_filter.1 h
    obtain ⟨item, hitem, rfl⟩ := List.mem_map.1 hmem
    have hpiece : enumValue item ⊆ items :=
      List.Subset.trans (enumValue_subset item) (of_mem_splitWhere hitem).1
    refine ⟨by simpa using hne, ?_, ?_, ?_, ?_⟩ <;> rw [String.toList_ofList]
    · exact trim_trim _
    · exact fun hc => notMem_of_mem_splitOn hitem (enumValue_subset item hc)
    · exact fun hp => hparen (hpiece hp)
    · exact fun hn => hfeed (hsub (hpiece hn))

theorem quoted?_subset {quote : Char} {cs value : List Char} (h : quoted? quote cs = some value) :
    value ⊆ cs := by
  cases cs with
  | nil => cases h
  | cons c rest =>
    rw [quoted?] at h
    split at h
    · rename_i hc
      cases h
      obtain ⟨rfl, -⟩ := hc
      simp only [List.cons_append, List.cons_subset, List.append_subset, List.mem_cons_self,
        List.nil_subset, true_and, and_true]
      exact List.Subset.trans (List.takeWhile_prefix _).subset (List.subset_cons_self c rest)
    · cases h

theorem bareValue?_subset {cs value : List Char} (h : bareValue? cs = some value) :
    value ⊆ cs := by
  unfold bareValue? at h
  split at h
  · cases h
  · cases h
    exact (List.takeWhile_prefix _).subset

theorem defaultClause?_subset {cs value : List Char} (h : defaultClause? cs = some value) :
    value ⊆ cs := by
  simp only [defaultClause?, Option.bind_eq_bind, Option.bind_eq_some_iff,
    Option.orElse_eq_orElse, Option.orElse_eq_or, Option.or_eq_some_iff] at h
  obtain ⟨word, hword, blanks, hblanks, h⟩ := h
  have hsub : blanks ⊆ cs := ((afterBlanks_suffix hblanks).trans (afterLetters_suffix hword)).subset
  rcases h with h | ⟨-, h | ⟨-, h⟩⟩
  · exact List.Subset.trans (quoted?_subset h) hsub
  · exact List.Subset.trans (quoted?_subset h) hsub
  · exact List.Subset.trans (bareValue?_subset h) hsub

theorem unquoteWith?_subset {quote : Char} {value inner : List Char}
    (h : unquoteWith? quote value = some inner) : inner ⊆ value := by
  cases value with
  | nil => cases h
  | cons c rest =>
    rw [unquoteWith?] at h
    split at h
    · cases h
      exact List.Subset.trans (List.dropLast_subset rest) (List.subset_cons_self c rest)
    · cases h

theorem unquote_subset (value : List Char) : unquote value ⊆ value := by
  unfold unquote
  rw [Option.orElse_eq_orElse, Option.orElse_eq_or]
  cases h : (unquoteWith? '\'' value).or (unquoteWith? '"' value) with
  | none => exact List.Subset.refl value
  | some inner =>
    rcases Option.or_eq_some_iff.1 h with h | ⟨-, h⟩
    · exact unquoteWith?_subset h
    · exact unquoteWith?_subset h

theorem defaultValue?_subset {line value : List Char} (h : defaultValue? line = some value) :
    value ⊆ line := by
  obtain ⟨raw, hraw, rfl⟩ := Option.map_eq_some_iff.1 h
  obtain ⟨start, hsuffix, hclause⟩ := exists_of_searchBoundary_eq_some hraw
  exact List.Subset.trans (unquote_subset raw)
    (List.Subset.trans (defaultClause?_subset hclause) hsuffix.subset)

theorem wellFormed_of_readColumn {line : List Char} {c : Column} (hfeed : '\n' ∉ line)
    (h : readColumn line = .ok c) : c.WellFormed := by
  have hfeed' : '\n' ∉ columnText line := fun hmem => hfeed (columnText_subset line hmem)
  obtain ⟨_, name, rest, raw, rest', kind, rfl, -, hfirst, hsecond, hraw, -, hvalues, rfl⟩ :=
    readColumn_eq_ok.1 h
  have hname : Name.IsWord (String.ofList name) := by
    have hsome : (nextRun isWord (nextRun isWord (columnText line)).2).1 ≠ [] := by
      rwa [hfirst, hsecond]
    have hword := isWord_firstWord hsome
    rwa [hfirst] at hword
  refine ⟨hname, rfl, ?_, ?_, ?_⟩
  · constructor
    · intro henum
      simpa [columnOf, show kind = .enum from henum] using hvalues henum
    · intro hne
      by_contra hkind
      exact hne (if_neg hkind)
  · intro v hv
    simp only [columnOf] at hv
    split at hv
    · obtain ⟨value, hvalue, rfl⟩ := List.mem_map.1 hv
      exact isEnumValue_of_mem_enumValues hfeed' hvalue
    · cases hv
  · intro v hv
    obtain ⟨value, hvalue, rfl⟩ := Option.map_eq_some_iff.1 hv
    rw [String.toList_ofList]
    exact fun hn => hfeed' (defaultValue?_subset hvalue hn)

theorem wellFormed_of_readColumn_error {line : List Char} {r : Refusal} (lineNumber : Nat)
    (h : readColumn line = .error r) : (failedLine lineNumber r).WellFormed := by
  obtain ⟨_, name, rest, raw, rest', rfl, hfirst, hsecond, hname, hfails⟩ :=
    readColumn_eq_error.1 h
  obtain ⟨name, reason⟩ := r
  subst hname
  have named {reason : LineFailure} (hword : Name.IsWord (String.ofList name))
      (hraw : ∀ raw, reason = .unsupportedType raw → Name.IsWord raw ∧ Kind.ofRaw? raw = none) :
      (failedLine lineNumber ⟨name, reason⟩).WellFormed :=
    ⟨hword.isWord, fun _ => hword.notEmpty, rfl, hraw⟩
  -- All but lines of unexpected format have a first word: it opens the constraint, or the type is
  -- behind it.
  have hbehind (hraw : raw ≠ []) : Name.IsWord (String.ofList name) := by
    have hword : Name.IsWord (String.ofList (nextRun isWord (columnText line)).1) :=
      isWord_firstWord (by rwa [hfirst, hsecond])
    rwa [hfirst] at hword
  cases hfails with
  | tableConstraint hconstraint =>
    have hword := isWord_nextRun (firstWord_ne_nil_of_isConstraint hconstraint)
    rw [hfirst] at hword
    exact named hword (by simp)
  | unexpectedFormat _ _ =>
    have hword : ∀ c ∈ (String.ofList name).toList, isWord c = true := by
      intro c hc
      have hmem : c ∈ (nextRun isWord (columnText line)).1 := by
        rwa [hfirst, ← String.toList_ofList (l := name)]
      exact of_mem_nextRun hmem
    exact ⟨hword, fun hne => absurd rfl hne, rfl, by simp [failedLine]⟩
  | unsupportedType _ hraw hkind =>
    refine named (hbehind hraw) ?_
    rintro _ ⟨rfl⟩
    have hword : Name.IsWord (String.ofList (nextRun isWord rest).1) :=
      isWord_nextRun (by rwa [hsecond])
    rw [hsecond] at hword
    exact ⟨hword, Option.map_eq_none_iff.1 hkind⟩
  | missingEnumValues _ hraw _ _ => exact named (hbehind hraw) (by simp)

theorem wellFormed_of_readTrimmed {line : List Char} {c : Column} (hfeed : '\n' ∉ line)
    (h : readTrimmed line = .ok c) : c.WellFormed := by
  unfold readTrimmed at h
  split at h
  · cases h
  · exact wellFormed_of_readColumn hfeed h

theorem wellFormed_of_readTrimmed_error {line : List Char} {r : Refusal} (lineNumber : Nat)
    (h : readTrimmed line = .error r) : (failedLine lineNumber r).WellFormed := by
  unfold readTrimmed at h
  split at h
  · cases h
    exact ⟨by simp [failedLine], by simp [failedLine], rfl, by simp [failedLine]⟩
  · exact wellFormed_of_readColumn_error lineNumber h

theorem rowColumn?_eq_some {row : Row} {c : Column} :
    rowColumn? row = some c ↔ row.2 = .ok c := by
  obtain ⟨i, said⟩ := row
  cases said <;> simp [rowColumn?]

theorem rowFailure?_eq_some {row : Row} {f : FailedLine} :
    rowFailure? row = some f ↔ ∃ r, row.2 = .error r ∧ failedLine (row.1 + 1) r = f := by
  obtain ⟨i, said⟩ := row
  cases said <;> simp [rowFailure?]

theorem wellFormed_of_mem_columns {text : List Char} {c : Column} (h : c ∈ columns text) :
    c.WellFormed := by
  obtain ⟨rows, hreads⟩ := reads_ofLines (lines text)
  rw [columns, hreads.columns] at h
  obtain ⟨row, hrow, hc⟩ := List.mem_filterMap.1 h
  obtain ⟨line, hline, -, -, hsaid⟩ := (hreads.account.mem_iff row).1 hrow
  have hfeed := feed_notMem_of_mem_lines (List.mem_of_getElem? hline)
  exact wellFormed_of_readTrimmed (fun hn => hfeed (trim_subset line hn))
    (hsaid ▸ rowColumn?_eq_some.1 hc)

theorem of_mem_failures {text : List Char} {f : FailedLine} (h : f ∈ failures text) :
    f.WellFormed ∧ 2 ≤ f.lineNumber ∧ f.lineNumber ≤ (lines text).length := by
  obtain ⟨rows, hreads⟩ := reads_ofLines (lines text)
  rw [failures, hreads.failures] at h
  obtain ⟨row, hrow, hf⟩ := List.mem_filterMap.1 h
  obtain ⟨r, hr, rfl⟩ := rowFailure?_eq_some.1 hf
  have hisRow := (hreads.account.mem_iff row).1 hrow
  have hlast : row.1 < (lines text).length := hisRow.lt_length
  obtain ⟨line, -, ⟨header, hbelow, -⟩, -, hsaid⟩ := hisRow
  refine ⟨wellFormed_of_readTrimmed_error _ (hsaid ▸ hr), ?_, hlast⟩
  have hone : 1 ≤ row.1 := Nat.one_le_of_lt hbelow
  exact Nat.succ_le_succ hone

theorem ascending_failures (text : List Char) :
    (failures text).Pairwise fun f g => f.lineNumber < g.lineNumber := by
  obtain ⟨rows, hreads⟩ := reads_ofLines (lines text)
  rw [failures, hreads.failures]
  refine hreads.account.ascending.filterMap rowFailure? ?_
  intro row row' hlt f hf f' hf'
  obtain ⟨r, -, rfl⟩ := rowFailure?_eq_some.1 hf
  obtain ⟨r', -, rfl⟩ := rowFailure?_eq_some.1 hf'
  exact Nat.succ_lt_succ hlt

theorem sound_of_tableOfBytes? {bytes : Bytes} {t : Table} (h : tableOfBytes? bytes = some t) :
    t.Sound := by
  obtain ⟨name, hname, rfl⟩ := Option.map_eq_some_iff.1 h
  obtain ⟨hne, hword⟩ := of_tableNameChars? hname
  exact ⟨⟨by simpa [TableName.ofText] using hne, by simpa [TableName.ofText] using hword⟩, rfl,
    fun c hc => wellFormed_of_mem_columns hc⟩

/-- Every table that is read from bytes is well formed. -/
theorem tableOfBytes?_wellFormed {bytes : Bytes} {t : Table} (h : tableOfBytes? bytes = some t) :
    t.WellFormed (lines (decodeLossy bytes)).length := by
  have hsound := sound_of_tableOfBytes? h
  obtain ⟨name, -, rfl⟩ := Option.map_eq_some_iff.1 h
  exact {
    toSound := hsound
    enabled := rfl
    failures := fun f hf => (of_mem_failures hf).1
    ascending := ascending_failures _
    lineNumber := fun f hf => (of_mem_failures hf).2 }

def jobsMigration : Bytes :=
  encode ("CREATE TABLE jobs (\n  id INT UNSIGNED,\n  state ENUM('new', 'done') DEFAULT 'new',\n" ++
    "  KEY by_state (state),\n  place POINT\n)").toList

def jobsTable : Table where
  names := .ofText "jobs"
  columns := [⟨"id", "Id", .uint, none, [], true⟩,
    ⟨"state", "State", .enum, some "new", ["new", "done"], true⟩]
  failures := [⟨"KEY", "KEY", 4, .tableConstraint⟩,
    ⟨"place", "Place", 5, .unsupportedType "POINT"⟩, ⟨"", "", 6, .unexpectedFormat⟩]
  disabled := false

theorem tableOfBytes?_jobsMigration : tableOfBytes? jobsMigration = some jobsTable := by
  decide +kernel

theorem jobsTable_wellFormed : tableOfBytes? jobsMigration = some jobsTable ∧
    jobsTable.WellFormed 6 := by
  have hlines : (lines (decodeLossy jobsMigration)).length = 6 := by decide +kernel
  exact ⟨tableOfBytes?_jobsMigration, hlines ▸ tableOfBytes?_wellFormed tableOfBytes?_jobsMigration⟩

end Ddl

end SchemaModels
