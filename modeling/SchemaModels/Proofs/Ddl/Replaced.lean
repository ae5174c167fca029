import Mathlib.Data.List.Sort
import SchemaModels.Proofs.Ddl.Header
import SchemaModels.Proofs.Text.Utf8

namespace SchemaModels

open Text

namespace Text

/-- A part that stands on one line between two others, which end and start where the line does. -/
structure OnLine {α : Type} (feed : α) (front part back : List α) : Prop where
  front : ∀ x ∈ front.getLast?, x = feed
  part : feed ∉ part
  back : ∀ x ∈ back.head?, x = feed

theorem eq_nil_or_of_getLast? {α : Type} {feed : α} {front : List α}
    (h : ∀ x ∈ front.getLast?, x = feed) : front = [] ∨ ∃ above, front = above ++ [feed] := by
  cases hlast : front.getLast? with
  | none => exact Or.inl (List.getLast?_eq_none_iff.1 hlast)
  | some x =>
    obtain ⟨above, rfl⟩ := List.getLast?_eq_some_iff.1 hlast
    exact Or.inr ⟨above, by rw [h x hlast]⟩

theorem eq_nil_or_of_head? {α : Type} {feed : α} {back : List α}
    (h : ∀ x ∈ back.head?, x = feed) : back = [] ∨ ∃ below, back = feed :: below := by
  cases back with
  | nil => exact Or.inl rfl
  | cons x below => exact Or.inr ⟨below, by rw [h x rfl]⟩

theorem length_lines {front : List Char} (h : ∀ c ∈ front.getLast?, c = '\n') :
    (lines front).length = front.count '\n' := by
  induction front using linesInduction with
  | last text hfeed =>
    rcases eq_nil_or_of_getLast? h with rfl | ⟨above, rfl⟩
    · rfl
    · simp at hfeed
  | feed line rest hline ih =>
    have hrest : ∀ c ∈ rest.getLast?, c = '\n' := by
      intro c hc
      apply h c
      rw [List.getLast?_append_of_ne_nil _ (List.cons_ne_nil _ _), List.getLast?_cons,
        Option.mem_def.1 hc]
      rfl
    rw [lines_append_feed hline, List.length_cons, ih hrest, List.count_append,
      List.count_eq_zero.2 hline, List.count_cons_self, Nat.zero_add]

theorem lines_append_of_getLast? {front : List Char} (h : ∀ c ∈ front.getLast?, c = '\n')
    (rest : List Char) : lines (front ++ rest) = lines front ++ lines rest := by
  rcases eq_nil_or_of_getLast? h with rfl | ⟨above, rfl⟩
  · rfl
  · exact lines_append_of_feed _ rest (by simp)

theorem lines_part {part back : List Char} (hpart : '\n' ∉ part)
    (hback : ∀ c ∈ back.head?, c = '\n') :
    (∀ line, (lines (part ++ back))[0]? = some line → trim line = trim part) ∧
      ∀ j, (lines (part ++ back))[j + 1]? = (lines back.tail)[j]? := by
  rcases eq_nil_or_of_head? hback with rfl | ⟨below, rfl⟩
  · rw [List.append_nil, lines_of_notMem hpart]
    split
    · exact ⟨by simp, fun j => rfl⟩
    · refine ⟨?_, fun j => rfl⟩
      rintro line ⟨rfl⟩
      rfl
  · rw [lines_append_feed hpart]
    refine ⟨?_, fun j => rfl⟩
    rintro line ⟨rfl⟩
    exact trim_dropReturn part

theorem OnLine.getElem?_lines {front part back : List Char} (h : OnLine '\n' front part back)
    (j : Nat) : (lines (front ++ part ++ back))[j]? =
      if j < front.count '\n' then (lines front)[j]?
      else (lines (part ++ back))[j - front.count '\n']? := by
  rw [List.append_assoc, lines_append_of_getLast? h.front, List.getElem?_append,
    length_lines h.front]

theorem decodeLossy_append_of_getLast? {front : Bytes} (h : ∀ b ∈ front.getLast?, b = 0x0a) :
    (∀ c ∈ (decodeLossy front).getLast?, c = '\n') ∧
      ∀ rest, decodeLossy (front ++ rest) = decodeLossy front ++ decodeLossy rest := by
  rcases eq_nil_or_of_getLast? h with rfl | ⟨above, rfl⟩
  · simp
  · have hfeed : decodeLossy (above ++ [0x0a]) = decodeLossy above ++ ['\n'] := by
      rw [decodeLossy_append_feed, decodeLossy_nil]
    refine ⟨by simp [hfeed], fun rest => ?_⟩
    rw [List.append_assoc, List.singleton_append, decodeLossy_append_feed, hfeed,
      List.append_assoc, List.singleton_append]

theorem decodeLossy_append_of_head? {back : Bytes} (h : ∀ b ∈ back.head?, b = 0x0a) :
    (∀ c ∈ (decodeLossy back).head?, c = '\n') ∧
      ∀ part, decodeLossy (part ++ back) = decodeLossy part ++ decodeLossy back := by
  rcases eq_nil_or_of_head? h with rfl | ⟨below, rfl⟩
  · simp
  · have hfeed : decodeLossy (0x0a :: below) = '\n' :: decodeLossy below := by
      rw [← List.nil_append (0x0a :: below), decodeLossy_append_feed, decodeLossy_nil,
        List.nil_append]
    refine ⟨by simp [hfeed], fun part => ?_⟩
    rw [decodeLossy_append_feed, hfeed]

theorem OnLine.decode {front part back : Bytes} (h : OnLine 0x0a front part back) :
    OnLine '\n' (decodeLossy front) (decodeLossy part) (decodeLossy back) ∧
      decodeLossy (front ++ part ++ back) =
        decodeLossy front ++ decodeLossy part ++ decodeLossy back := by
  obtain ⟨hfront, hfrontAppend⟩ := decodeLossy_append_of_getLast? h.front
  obtain ⟨hback, hbackAppend⟩ := decodeLossy_append_of_head? h.back
  refine ⟨⟨hfront, feed_notMem_decodeLossy h.part, hback⟩, ?_⟩
  rw [List.append_assoc, hfrontAppend, hbackAppend, List.append_assoc]

end Text

namespace Ddl

/-- The same lines but for one in the block, which closes it neither way. -/
structure SameOff (ls ls' : List Line) (i : Nat) : Prop where
  same : ∀ j ≠ i, ls[j]? = ls'[j]?
  inBlock : InBlock ls i
  stays : ∀ line, ls[i]? = some line → ¬ Closes line
  stays' : ∀ line, ls'[i]? = some line → ¬ Closes line

namespace SameOff

variable {ls ls' : List Line} {i : Nat}

theorem symm (h : SameOff ls ls' i) : SameOff ls' ls i where
  same j hj := (h.same j hj).symm
  inBlock := (inBlock_congr fun j hj => h.same j (Nat.ne_of_lt hj)).1 h.inBlock
  stays := h.stays'
  stays' := h.stays

theorem inBlock_of (h : SameOff ls ls' i) {j : Nat} (hj : InBlock ls j) : InBlock ls' j := by
  obtain ⟨header, hlt, hends, hopen⟩ := hj
  obtain ⟨header', hlt', hends', -⟩ := h.inBlock
  obtain rfl : header = header' := endsHeader_unique hends hends'
  refine ⟨header, hlt, (endsHeader_congr fun k hk => h.same k (by omega)).1 hends, ?_⟩
  intro k hk hkj line hline
  by_cases heq : k = i
  · exact h.stays' line (heq ▸ hline)
  · exact hopen k hk hkj line (h.same k heq ▸ hline)

theorem isRow_iff (h : SameOff ls ls' i) {row : Row} (hne : row.1 ≠ i) :
    IsRow ls row ↔ IsRow ls' row := by
  have hin : InBlock ls row.1 ↔ InBlock ls' row.1 := ⟨h.inBlock_of, h.symm.inBlock_of⟩
  rw [IsRow, IsRow, h.same row.1 hne, hin]

/-- Accounts are in order, so that the same rows stand in the same places. -/
theorem filter_eq (h : SameOff ls ls' i) {rows rows' : List Row} (hrows : IsAccount ls rows)
    (hrows' : IsAccount ls' rows') : rows.filter (·.1 != i) = rows'.filter (·.1 != i) := by
  have hirrefl : Std.Irrefl fun a b : Row => a.1 < b.1 := ⟨fun a => Nat.lt_irrefl a.1⟩
  have hantisymm : Std.Antisymm fun a b : Row => a.1 < b.1 :=
    ⟨fun a b hab hba => absurd hba (Nat.lt_asymm hab)⟩
  apply List.Pairwise.eq_of_mem_iff (hrows.ascending.filter _) (hrows'.ascending.filter _)
  intro row
  rw [List.mem_filter, List.mem_filter, hrows.mem_iff, hrows'.mem_iff, bne_iff_ne]
  exact and_congr_left fun hne => h.isRow_iff hne

end SameOff

theorem sameOff_of_onLine {front part part' back : List Char} (h : OnLine '\n' front part back)
    (h' : OnLine '\n' front part' back)
    (hin : InBlock (lines (front ++ part ++ back)) (front.count '\n')) (hstays : ¬ Closes part)
    (hstays' : ¬ Closes part') : SameOff (lines (front ++ part ++ back))
      (lines (front ++ part' ++ back)) (front.count '\n') := by
  have stays {part : List Char} (h : OnLine '\n' front part back) (hstays : ¬ Closes part) :
      ∀ line, (lines (front ++ part ++ back))[front.count '\n']? = some line → ¬ Closes line := by
    intro line hline
    rw [h.getElem?_lines, if_neg (Nat.lt_irrefl _), Nat.sub_self] at hline
    rw [Closes, (lines_part h.part h.back).1 line hline]
    exact hstays
  refine ⟨fun j hj => ?_, hin, stays h hstays, stays h' hstays'⟩
  rw [h.getElem?_lines, h'.getElem?_lines]
  split
  · rfl
  · obtain ⟨k, hk⟩ : ∃ k, j - front.count '\n' = k + 1 :=
      Nat.exists_eq_add_one_of_ne_zero (by omega)
    rw [hk, (lines_part h.part h.back).2, (lines_part h'.part h'.back).2]

/-- Whatever bytes take the place of those on a line of the block, the entries of all other lines
stay the same, in the same order and with the same numbers, if the line closes the block neither
before nor after. -/
theorem rows_off_line_eq {front old new back : Bytes} (hold : OnLine 0x0a front old back)
    (hnew : 0x0a ∉ new)
    (hin : InBlock (lines (decodeLossy (front ++ old ++ back))) (front.count 0x0a))
    (hstays : ¬ Closes (decodeLossy old)) (hstays' : ¬ Closes (decodeLossy new)) :
    ∃ rows rows', IsAccount (lines (decodeLossy (front ++ old ++ back))) rows ∧
      columns (decodeLossy (front ++ old ++ back)) = rows.filterMap rowColumn? ∧
      failures (decodeLossy (front ++ old ++ back)) = rows.filterMap rowFailure? ∧
      IsAccount (lines (decodeLossy (front ++ new ++ back))) rows' ∧
      columns (decodeLossy (front ++ new ++ back)) = rows'.filterMap rowColumn? ∧
      failures (decodeLossy (front ++ new ++ back)) = rows'.filterMap rowFailure? ∧
      rows.filter (·.1 != front.count 0x0a) = rows'.filter (·.1 != front.count 0x0a) := by
  obtain ⟨hline, htext⟩ := hold.decode
  obtain ⟨hline', htext'⟩ := OnLine.decode ⟨hold.front, hnew, hold.back⟩
  obtain ⟨rows, hreads⟩ := reads_ofLines (lines (decodeLossy (front ++ old ++ back)))
  obtain ⟨rows', hreads'⟩ := reads_ofLines (lines (decodeLossy (front ++ new ++ back)))
  refine ⟨rows, rows', hreads.account, hreads.columns, hreads.failures, hreads'.account,
    hreads'.columns, hreads'.failures, ?_⟩
  have hoff : SameOff (lines (decodeLossy (front ++ old ++ back)))
      (lines (decodeLossy (front ++ new ++ back))) (front.count 0x0a) := by
    rw [← count_feed_decodeLossy] at hin ⊢
    rw [htext] at hin ⊢
    rw [htext']
    exact sameOff_of_onLine hline hline' hin hstays hstays'
  exact hoff.filter_eq hreads.account hreads'.account

def aboveState : Bytes := encode "CREATE TABLE jobs (\n  id INT,\n".toList

def stateLine : Bytes := encode "  state ENUM('new', 'done'),".toList

def belowState : Bytes := encode "\n  place POINT\n)".toList

def brokenLine : Bytes := [0x20, 0x6e, 0xe2, 0x82]

theorem brokenLine_rows : OnLine 0x0a aboveState stateLine belowState ∧ 0x0a ∉ brokenLine ∧
    InBlock (lines (decodeLossy (aboveState ++ stateLine ++ belowState))) 2 ∧
    ¬ Closes (decodeLossy stateLine) ∧ ¬ Closes (decodeLossy brokenLine) ∧
    failures (decodeLossy (aboveState ++ brokenLine ++ belowState)) =
      ⟨"n", "N", 3, .unexpectedFormat⟩ ::
        failures (decodeLossy (aboveState ++ stateLine ++ belowState)) ∧
    ∃ rows rows', IsAccount (lines (decodeLossy (aboveState ++ stateLine ++ belowState))) rows ∧
      IsAccount (lines (decodeLossy (aboveState ++ brokenLine ++ belowState))) rows' ∧
      rows.filter (·.1 != 2) = rows'.filter (·.1 != 2) := by
  have hline : OnLine 0x0a aboveState stateLine belowState :=
    ⟨by decide +kernel, by decide +kernel, by decide +kernel⟩
  have hnew : 0x0a ∉ brokenLine := by decide
  have hcount : aboveState.count 0x0a = 2 := by decide +kernel
  have hin : InBlock (lines (decodeLossy (aboveState ++ stateLine ++ belowState)))
      (aboveState.count 0x0a) :=
    (phase_take_eq_block_iff (by decide +kernel)).1 (by decide +kernel)
  have hstays : ¬ Closes (decodeLossy stateLine) := mt (closesBlock_iff _).2 (by decide +kernel)
  have hstays' : ¬ Closes (decodeLossy brokenLine) := mt (closesBlock_iff _).2 (by decide +kernel)
  obtain ⟨rows, rows', hrows, -, -, hrows', -, -, hsame⟩ :=
    rows_off_line_eq hline hnew hin hstays hstays'
  rw [hcount] at hin hsame
  exact ⟨hline, hnew, hin, hstays, hstays', by decide +kernel, rows, rows', hrows, hrows', hsame⟩

end Ddl

end SchemaModels
