import SchemaModels.Proofs.Ddl.WellFormed
import SchemaModels.Proofs.Name.Upper
import SchemaModels.Proofs.Report.Columns
import SchemaModels.Run

namespace SchemaModels

open Text

/-- A table as a migration gives it, or the same with the other flag. -/
def Table.IsRead (t : Table) : Prop :=
  ∃ bytes read, Ddl.tableOfBytes? bytes = some read ∧ t = { read with disabled := t.disabled }

theorem Table.IsRead.sound {t : Table} (h : t.IsRead) : t.Sound := by
  obtain ⟨bytes, read, hread, heq⟩ := h
  have hsound := Ddl.sound_of_tableOfBytes? hread
  rw [heq]
  exact ⟨hsound.name, hsound.camelCase, hsound.columns⟩

theorem Table.IsRead.wellFormed_failure {t : Table} (h : t.IsRead) :
    ∀ f ∈ t.failures, f.WellFormed := by
  obtain ⟨bytes, read, hread, heq⟩ := h
  rw [heq]
  exact (Ddl.tableOfBytes?_wellFormed hread).failures

namespace Summary

theorem isTight_toString (n : Nat) : IsTight (toString n) ∧ toString n ≠ "" := by
  have hdigits : (toString n).toList = Nat.toDigits 10 n := by
    rw [Nat.toString_eq_repr, Nat.toList_repr]
  constructor
  · apply isTight_of_forall
    intro c hc
    rw [hdigits] at hc
    have hcode := Char.isDigit_iff_toNat.1 (Nat.isDigit_of_mem_toDigits (by decide) (by decide) hc)
    have htable : ∀ n < 58, 48 ≤ n → isBlank (Char.ofNat n) = false := by decide
    exact of_codes (P := fun c => isBlank c = false) htable hcode.1 (Nat.lt_succ_of_le hcode.2)
  · rw [ne_eq, ← String.toList_eq_nil_iff, hdigits]
    exact Nat.toDigits_ne_nil

theorem isTight_of_isWord {s : String} (h : ∀ c ∈ s.toList, isWord c = true) : IsTight s :=
  isTight_of_forall fun c hc => isBlank_of_isWord (h c hc)

theorem isTight_camelCase {s : String} (h : ∀ c ∈ s.toList, isWord c = true) :
    IsTight (Name.camelCase s) := by
  apply isTight_of_forall
  rw [Name.toList_camelCase]
  exact Name.forall_mem_camelChars (fun c hc u hu => isBlank_of_mem_upper hc hu)
    fun c hc => isBlank_of_isWord (h c hc)

theorem message_unsupportedType (raw : String) :
    (LineFailure.unsupportedType raw).message = "unsupported column type: `" ++ raw ++ "`" := rfl

theorem isTight_message {reason : LineFailure}
    (h : ∀ raw, reason = .unsupportedType raw → Name.IsWord raw) : IsTight reason.message := by
  cases reason with
  | unsupportedType raw =>
    have hfront : IsTight "unsupported column type: `" := by decide
    have hback : IsTight "`" := by decide
    have hraw : IsTight raw := isTight_of_isWord (h raw rfl).isWord
    rw [message_unsupportedType]
    exact hfront.between hback (by decide) (by decide) hraw.oneLine
  | _ => decide

theorem message_ne_empty (reason : LineFailure) : reason.message ≠ "" := by
  cases reason with
  | unsupportedType raw =>
    rw [message_unsupportedType, ne_eq, String.append_eq_empty_iff]
    exact fun h => absurd h.2 (by decide)
  | _ => decide

theorem isReadable_tableRow {t : Table} (ht : t.Sound) : IsReadable (tableRow t) where
  tight := by
    simp only [tableRow, List.forall_mem_cons, List.not_mem_nil, false_imp_iff, implies_true,
      and_true]
    refine ⟨isTight_of_isWord ht.name.isWord, ht.camelCase ▸ isTight_camelCase ht.name.isWord,
      (isTight_toString _).1, (isTight_toString _).1, ?_⟩
    cases t.disabled <;> decide
  notEmpty := List.cons_ne_nil _ _
  last := by
    cases hdisabled : t.disabled <;> simp [tableRow, hdisabled]

theorem isReadable_failureRow {t : Table} (ht : t.Sound) {f : FailedLine} (hf : f.WellFormed) :
    IsReadable (failureRow t f) where
  tight := by
    simp only [failureRow, List.forall_mem_cons, List.not_mem_nil, false_imp_iff, implies_true,
      and_true]
    exact ⟨isTight_of_isWord ht.name.isWord, (isTight_toString _).1, isTight_of_isWord hf.isWord,
      isTight_message fun raw hraw => (hf.unsupported raw hraw).1⟩
  notEmpty := List.cons_ne_nil _ _
  last := mt Option.some.inj (message_ne_empty f.reason)

theorem isReadable_headings : IsReadable headings := ⟨by decide, by decide, by decide⟩

theorem isReadable_failureHeadings : IsReadable failureHeadings :=
  ⟨by decide, by decide, by decide⟩

section Read

variable {tables : List Table} (h : ∀ t ∈ tables, t.IsRead)

include h

theorem isReadable_of_mem_tableRows : ∀ row ∈ tables.map tableRow,
    row.length = headings.length ∧ IsReadable row := by
  intro row hrow
  obtain ⟨t, ht, rfl⟩ := List.mem_map.1 hrow
  exact ⟨rfl, isReadable_tableRow (h t ht).sound⟩

theorem isReadable_of_mem_failureRows : ∀ row ∈ failureRows tables,
    row.length = failureHeadings.length ∧ IsReadable row := by
  intro row hrow
  obtain ⟨t, ht, hmem⟩ := List.mem_flatMap.1 hrow
  obtain ⟨f, hf, rfl⟩ := List.mem_map.1 hmem
  exact ⟨rfl, isReadable_failureRow (h t ht).sound ((h t ht).wellFormed_failure f hf)⟩

theorem oneLine_of_mem_lines : ∀ l ∈ lines tables, OneLine l := by
  intro l hl
  rcases List.mem_append.1 hl with htable | hfailure
  · exact oneLine_of_mem_blockLines isReadable_headings (by decide)
      (isReadable_of_mem_tableRows h) l htable
  · split at hfailure
    · cases hfailure
    · rcases List.mem_cons.1 hfailure with rfl | hblock
      · decide
      · exact oneLine_of_mem_blockLines isReadable_failureHeadings (by decide)
          (isReadable_of_mem_failureRows h) l hblock

end Read

theorem length_failureRows (tables : List Table) :
    (failureRows tables).length = Run.failedLines tables := by
  simp [failureRows, Run.failedLines, List.length_flatMap]

theorem length_blockLines (headings : Row) (rows : List Row) :
    (blockLines headings rows).length = 2 + rows.length := by
  rw [blockLines, List.length_map, List.length_cons, List.length_cons, Nat.add_comm 2]

/-- The summary of tables that were read has a block with a row for each table and, if any line
failed, a blank line and a block with a row for each of these. Cut where the columns start and
trimmed, the rows give all their cells back. -/
theorem text_reads_back {tables : List Table} (h : ∀ t ∈ tables, t.IsRead) :
    ∃ tableLines failureLines,
      splitOn '\n' (text tables).toList = tableLines ++ failureLines ++ [[]] ∧
      tableLines.length = 2 + tables.length ∧
      IsBlock ["TABLE", "MODEL", "COLUMNS", "FAILED", "STATUS"]
        (tables.map fun t => [t.names.text, t.names.camelCase, toString t.columns.length,
          toString t.failures.length, if t.disabled then "disabled" else "enabled"]) tableLines ∧
      if Run.failedLines tables = 0 then failureLines = []
      else ∃ block, failureLines = [] :: block ∧ block.length = 2 + Run.failedLines tables ∧
        IsBlock ["TABLE", "LINE", "COLUMN", "REASON"]
          (tables.flatMap fun t => t.failures.map fun f =>
            [t.names.text, toString f.lineNumber, f.name, f.reason.message]) block := by
  have htables := isBlock_blockLines isReadable_headings (by decide)
    (isReadable_of_mem_tableRows h)
  have hfailures := isBlock_blockLines isReadable_failureHeadings (by decide)
    (isReadable_of_mem_failureRows h)
  have hlength : ((blockLines headings (tables.map tableRow)).map String.toList).length =
      2 + tables.length := by
    rw [List.length_map, length_blockLines, List.length_map]
  rw [text, splitOn_unlines (oneLine_of_mem_lines h), ← length_failureRows, lines]
  cases hrows : failureRows tables with
  | nil => exact ⟨_, [], by rw [List.append_nil, List.append_nil], hlength, htables, by simp⟩
  | cons row rows =>
    refine ⟨_, [] :: (blockLines failureHeadings (row :: rows)).map String.toList, ?_, hlength,
      htables, ?_⟩
    · rw [List.map_append]
      rfl
    · rw [if_neg (by simp)]
      refine ⟨_, rfl, ?_, hrows ▸ hfailures⟩
      rw [List.length_map, length_blockLines]

def blankMigration : Bytes := encode "CREATE TABLE _ (\n  größe int)".toList

def blankTable : Table where
  names := .ofText "_"
  columns := [⟨"größe", "Größe", .int, none, [], true⟩]
  failures := []
  disabled := false

theorem summary_reads_back :
    (∀ t ∈ [{ Ddl.jobsTable with disabled := true }, blankTable], t.IsRead) ∧
    ∃ tableLines failureLines,
      splitOn '\n' (text [{ Ddl.jobsTable with disabled := true }, blankTable]).toList =
        tableLines ++ failureLines ++ [[]] ∧
      tableLines.length = 4 ∧
      IsBlock ["TABLE", "MODEL", "COLUMNS", "FAILED", "STATUS"]
        [["jobs", "Jobs", "2", "3", "disabled"], ["_", "", "1", "0", "enabled"]] tableLines ∧
      ∃ block, failureLines = [] :: block ∧ block.length = 5 ∧
        IsBlock ["TABLE", "LINE", "COLUMN", "REASON"]
          [["jobs", "4", "KEY", "table-level constraint, not a column"],
            ["jobs", "5", "place", "unsupported column type: `POINT`"],
            ["jobs", "6", "", "does not match expected column format"]] block := by
  have hread : ∀ t ∈ [{ Ddl.jobsTable with disabled := true }, blankTable], t.IsRead := by
    have hblank : Ddl.tableOfBytes? blankMigration = some blankTable := by decide +kernel
    exact List.forall_mem_cons.2 ⟨⟨_, _, Ddl.tableOfBytes?_jobsMigration, rfl⟩,
      List.forall_mem_singleton.2 ⟨_, _, hblank, rfl⟩⟩
  exact ⟨hread, text_reads_back hread⟩

end Summary

end SchemaModels
