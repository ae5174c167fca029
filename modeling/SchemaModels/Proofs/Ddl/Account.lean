import Mathlib.Data.List.Induction
import SchemaModels.Ddl.Block
import SchemaModels.Proofs.Text.Lines

namespace SchemaModels.Ddl

open Text

abbrev Line := List Char

/-- The first character of a line other than blanks closes a parenthesis. -/
def Closes (line : Line) : Prop := [')'] <+: trim line

/-- A line that is neither blank nor a comment as a whole. -/
def Counts (line : Line) : Prop :=
  trim line ≠ [] ∧ ¬ ['-', '-'] <+: trim line ∧ ¬ ['#'] <+: trim line

/-- Line `h` holds an opening parenthesis, and a statement opens on it or above. -/
def MayEndHeader (ls : List Line) (h : Nat) : Prop :=
  (∃ line, ls[h]? = some line ∧ '(' ∈ line) ∧
    ∃ j ≤ h, ∃ line, ls[j]? = some line ∧ opensStatement line = true

def EndsHeader (ls : List Line) (h : Nat) : Prop :=
  MayEndHeader ls h ∧ ∀ j < h, ¬ MayEndHeader ls j

/-- Line `i` lies below the header, and no line between them closes the block. -/
def InBlock (ls : List Line) (i : Nat) : Prop :=
  ∃ h < i, EndsHeader ls h ∧
    ∀ j, h < j → j < i → ∀ line, ls[j]? = some line → ¬ Closes line

/-- The number of a line, counted from zero, and what the line says. -/
abbrev Row := Nat × Except Refusal Column

/-- A line of the block that counts. What it says depends on its trimmed text alone. -/
def IsRow (ls : List Line) (row : Row) : Prop :=
  ∃ line, ls[row.1]? = some line ∧ InBlock ls row.1 ∧ Counts line ∧
    row.2 = readTrimmed (trim line)

/-- All rows of some lines, in order. -/
structure IsAccount (ls : List Line) (rows : List Row) : Prop where
  ascending : rows.Pairwise fun a b => a.1 < b.1
  mem_iff : ∀ row, row ∈ rows ↔ IsRow ls row

def rowColumn? : Row → Option Column
  | (_, .ok c) => some c
  | (_, .error _) => none

/-- The failure of a row. Its line is numbered from one. -/
def rowFailure? : Row → Option FailedLine
  | (_, .ok _) => none
  | (i, .error r) => some (failedLine (i + 1) r)

theorem closesBlock_iff (line : Line) : closesBlock line = true ↔ Closes line := by
  unfold closesBlock Closes
  cases trim line with
  | nil => simp
  | cons c cs => simp [List.cons_prefix_cons, eq_comm (a := c)]

theorem isCounted_iff (line : Line) : isCounted line = true ↔ Counts line := by
  unfold isCounted Counts
  split
  · rename_i h
    simp [h]
  · rename_i cs h
    simp [h, List.cons_prefix_cons]
  · rename_i cs h
    simp [h, List.cons_prefix_cons]
  · rename_i blank hash dashes
    simp only [true_iff]
    refine ⟨blank, ?_, ?_⟩
    · rintro ⟨cs, h⟩
      exact dashes cs h.symm
    · rintro ⟨cs, h⟩
      exact hash cs h.symm

theorem Closes.counts {line : Line} (h : Closes line) : Counts line := by
  obtain ⟨cs, h⟩ := h
  simp [Counts, ← h, List.cons_prefix_cons]

theorem Closes.readTrimmed {line : Line} (h : Closes line) :
    readTrimmed (trim line) = .error ⟨[], .unexpectedFormat⟩ := by
  obtain ⟨cs, h⟩ := h
  simp [Ddl.readTrimmed, ← h]

theorem endsHeader_unique {ls : List Line} {h h' : Nat} (hh : EndsHeader ls h)
    (hh' : EndsHeader ls h') : h = h' := by
  rcases Nat.lt_trichotomy h h' with hlt | heq | hlt
  · exact absurd hh.1 (hh'.2 h hlt)
  · exact heq
  · exact absurd hh'.1 (hh.2 h' hlt)

theorem not_inBlock_after {ls : List Line} {i j : Nat} {line : Line} (hi : InBlock ls i)
    (hline : ls[i]? = some line) (hc : Closes line) (hij : i < j) : ¬ InBlock ls j := by
  rintro ⟨h', -, hh', hopen⟩
  obtain ⟨h, hlt, hh, -⟩ := hi
  exact hopen i (endsHeader_unique hh hh' ▸ hlt) hij line hline hc

section Prefix

variable {ls ls' : List Line} {i : Nat}

theorem mayEndHeader_congr (h : ∀ j ≤ i, ls[j]? = ls'[j]?) :
    MayEndHeader ls i ↔ MayEndHeader ls' i := by
  unfold MayEndHeader
  rw [h i (Nat.le_refl i)]
  refine and_congr_right fun _ => exists_congr fun j => and_congr_right fun hj => ?_
  rw [h j hj]

theorem endsHeader_congr (h : ∀ j ≤ i, ls[j]? = ls'[j]?) : EndsHeader ls i ↔ EndsHeader ls' i := by
  unfold EndsHeader
  rw [mayEndHeader_congr h]
  refine and_congr_right fun _ => forall_congr' fun j => imp_congr_right fun hj => ?_
  rw [mayEndHeader_congr fun k hk => h k (by omega)]

theorem inBlock_congr (h : ∀ j < i, ls[j]? = ls'[j]?) : InBlock ls i ↔ InBlock ls' i := by
  refine exists_congr fun header => and_congr_right fun hlt => ?_
  rw [endsHeader_congr fun j hj => h j (by omega)]
  refine and_congr_right fun _ => forall_congr' fun j => imp_congr_right fun _ =>
    imp_congr_right fun hj => ?_
  rw [h j hj]

variable (more : List Line)

theorem mayEndHeader_append (hi : i < ls.length) :
    MayEndHeader (ls ++ more) i ↔ MayEndHeader ls i :=
  mayEndHeader_congr fun _ hj => List.getElem?_append_left (Nat.lt_of_le_of_lt hj hi)

theorem inBlock_append (hi : i ≤ ls.length) : InBlock (ls ++ more) i ↔ InBlock ls i :=
  inBlock_congr fun _ hj => List.getElem?_append_left (Nat.lt_of_lt_of_le hj hi)

end Prefix

/-- What the lines read so far have to do with the phase they lead to. -/
def Phase.Fits (ls : List Line) : Phase → Prop
  | .outside => ∀ line ∈ ls, opensStatement line = false
  | .header => (∃ line ∈ ls, opensStatement line = true) ∧ ∀ h, ¬ MayEndHeader ls h
  | .block => InBlock ls ls.length
  | .closed => ∃ i line, ls[i]? = some line ∧ InBlock ls i ∧ Closes line

theorem opener_of_mayEndHeader {ls : List Line} {h : Nat} (hh : MayEndHeader ls h) :
    ∃ line ∈ ls, opensStatement line = true := by
  obtain ⟨-, j, -, line, hj, ho⟩ := hh
  exact ⟨line, List.mem_of_getElem? hj, ho⟩

theorem inBlock_length_iff {ls : List Line} {p : Phase} (h : p.Fits ls) :
    InBlock ls ls.length ↔ p = .block := by
  have before (hno : ∀ h, ¬ MayEndHeader ls h) : ¬ InBlock ls ls.length := by
    rintro ⟨h, -, hh, -⟩
    exact hno h hh.1
  cases p with
  | outside =>
    refine iff_of_false (before fun k hk => ?_) (by simp)
    obtain ⟨line, hmem, ho⟩ := opener_of_mayEndHeader hk
    simp [h line hmem] at ho
  | header => exact iff_of_false (before h.2) (by simp)
  | block => exact iff_of_true h rfl
  | closed =>
    obtain ⟨i, line, hline, hi, hc⟩ := h
    have hlt : i < ls.length := (List.getElem?_eq_some_iff.1 hline).1
    exact iff_of_false (not_inBlock_after hi hline hc hlt) (by simp)

theorem mayEndHeader_concat (ls : List Line) (line : Line) (h : Nat) :
    MayEndHeader (ls ++ [line]) h ↔ MayEndHeader ls h ∨
      h = ls.length ∧ '(' ∈ line ∧ ∃ opener ∈ ls ++ [line], opensStatement opener = true := by
  have hlast : (ls ++ [line])[ls.length]? = some line := List.getElem?_concat_length
  rcases Nat.lt_trichotomy h ls.length with hlt | rfl | hgt
  · have hne : h ≠ ls.length := Nat.ne_of_lt hlt
    simp [mayEndHeader_append [line] hlt, hne]
  · constructor
    · intro hmay
      obtain ⟨l, hl, hin⟩ := hmay.1
      cases hlast.symm.trans hl
      exact Or.inr ⟨rfl, hin, opener_of_mayEndHeader hmay⟩
    · rintro (⟨⟨l, hl, -⟩, -⟩ | ⟨-, hin, opener, hmem, ho⟩)
      · simp at hl
      · obtain ⟨j, hj⟩ := List.mem_iff_getElem?.1 hmem
        have hlt := (List.getElem?_eq_some_iff.1 hj).1
        rw [List.length_append, List.length_singleton] at hlt
        exact ⟨⟨line, hlast, hin⟩, j, Nat.le_of_lt_succ hlt, opener, hj, ho⟩
  · have beyond (ls' : List Line) (hlen : ls'.length ≤ h) : ¬ MayEndHeader ls' h := by
      rintro ⟨⟨l, hl, -⟩, -⟩
      simp [List.getElem?_eq_none hlen] at hl
    refine iff_of_false (beyond _ (by simpa using Nat.succ_le_of_lt hgt)) ?_
    rintro (hold | ⟨rfl, -⟩)
    · exact beyond ls (Nat.le_of_lt hgt) hold
    · exact Nat.lt_irrefl _ hgt

theorem fits_opening {ls : List Line} (line : Line) {opened : Bool}
    (hno : ∀ h, ¬ MayEndHeader ls h)
    (ho : opened = true ↔ ∃ opener ∈ ls ++ [line], opensStatement opener = true) :
    (Scan.opening opened line).Fits (ls ++ [line]) := by
  cases opened with
  | false =>
    intro l hl
    rw [← Bool.not_eq_true]
    intro hopen
    simpa using ho.2 ⟨l, hl, hopen⟩
  | true =>
    by_cases hp : '(' ∈ line
    · have hends : EndsHeader (ls ++ [line]) ls.length := by
        refine ⟨(mayEndHeader_concat ls line _).2 (Or.inr ⟨rfl, hp, ho.1 rfl⟩), fun j hj => ?_⟩
        rw [mayEndHeader_append [line] hj]
        exact hno j
      have hblock : InBlock (ls ++ [line]) (ls ++ [line]).length :=
        ⟨ls.length, by simp, hends, fun j h1 h2 => by simp at h2; omega⟩
      rw [show Scan.opening true line = .block by simp [Scan.opening, hp]]
      exact hblock
    · -- Neither the lines above nor this one can end the header.
      rw [show Scan.opening true line = .header by simp [Scan.opening, hp]]
      refine ⟨ho.1 rfl, fun h hmay => ?_⟩
      rcases (mayEndHeader_concat ls line h).1 hmay with hold | ⟨-, hin, -⟩
      · exact hno h hold
      · exact hp hin

theorem inBlock_concat {ls : List Line} (h : InBlock ls ls.length) {line : Line}
    (hc : ¬ Closes line) : InBlock (ls ++ [line]) (ls ++ [line]).length := by
  obtain ⟨k, hk, hh, hopen⟩ := (inBlock_append [line] (Nat.le_refl _)).2 h
  rw [List.length_append, List.length_singleton]
  refine ⟨k, by omega, hh, fun j hkj hj l hl => ?_⟩
  by_cases heq : j = ls.length
  · subst heq
    rw [List.getElem?_concat_length] at hl
    exact Option.some.inj hl ▸ hc
  · exact hopen j hkj (by omega) l hl

@[simp] theorem phase_add (s : Scan) (n : Nat) (said : Except Refusal Column) :
    (s.add n said).phase = s.phase := by
  cases said <;> rfl

theorem fits_step_block {ls : List Line} {s : Scan} (line : Line) (n : Nat)
    (hp : s.phase = .block) (h : InBlock ls ls.length) :
    (s.step (line, n)).phase.Fits (ls ++ [line]) := by
  simp only [Scan.step, hp]
  split
  · rename_i hn
    rw [hp]
    refine inBlock_concat h fun hc => ?_
    simp [(isCounted_iff line).2 hc.counts] at hn
  · split
    · rename_i hc
      exact ⟨ls.length, line, List.getElem?_concat_length,
        (inBlock_append [line] (Nat.le_refl _)).2 h, (closesBlock_iff line).1 hc⟩
    · rename_i hc
      rw [phase_add, hp]
      exact inBlock_concat h fun hc' => hc ((closesBlock_iff line).2 hc')

theorem fits_step_outside {ls : List Line} (line : Line)
    (h : ∀ l ∈ ls, opensStatement l = false) :
    (Scan.opening (opensStatement line) line).Fits (ls ++ [line]) := by
  apply fits_opening line
  · intro k hk
    obtain ⟨opener, hmem, ho⟩ := opener_of_mayEndHeader hk
    simp [h opener hmem] at ho
  · constructor
    · intro ho
      exact ⟨line, by simp, ho⟩
    · rintro ⟨opener, hmem, ho⟩
      rcases List.mem_append.1 hmem with hin | hin
      · simp [h opener hin] at ho
      · rwa [List.mem_singleton.1 hin] at ho

theorem fits_step {ls : List Line} {s : Scan} (line : Line) (h : s.phase.Fits ls) :
    (s.step (line, ls.length + 1)).phase.Fits (ls ++ [line]) := by
  cases hp : s.phase with
  | outside =>
    rw [hp] at h
    simp only [Scan.step, hp]
    exact fits_step_outside line h
  | header =>
    rw [hp] at h
    obtain ⟨⟨opener, hmem, ho⟩, hno⟩ := h
    simp only [Scan.step, hp]
    exact fits_opening line hno
      (iff_of_true rfl ⟨opener, List.mem_append_left _ hmem, ho⟩)
  | block =>
    rw [hp] at h
    exact fits_step_block line _ hp h
  | closed =>
    -- The line that closed the block stays where it is.
    rw [hp] at h
    obtain ⟨i, l, hl, hi, hc⟩ := h
    have hlt : i < ls.length := (List.getElem?_eq_some_iff.1 hl).1
    simp only [Scan.step, hp]
    exact ⟨i, l, by rw [List.getElem?_append_left hlt, hl],
      (inBlock_append [line] (Nat.le_of_lt hlt)).2 hi, hc⟩

theorem IsRow.lt_length {ls : List Line} {row : Row} (h : IsRow ls row) : row.1 < ls.length := by
  obtain ⟨line, hline, -⟩ := h
  exact (List.getElem?_eq_some_iff.1 hline).1

theorem isRow_append (ls : List Line) (line : Line) (row : Row) :
    IsRow (ls ++ [line]) row ↔ IsRow ls row ∨
      (InBlock ls ls.length ∧ Counts line) ∧ row = (ls.length, readTrimmed (trim line)) := by
  obtain ⟨i, said⟩ := row
  rcases Nat.lt_trichotomy i ls.length with hlt | rfl | hgt
  · have hne : i ≠ ls.length := by omega
    simp [IsRow, List.getElem?_append_left hlt, inBlock_append [line] (Nat.le_of_lt hlt), hne]
  · simp [IsRow, inBlock_append [line] (Nat.le_refl _), and_assoc]
  · have hnone : (ls ++ [line])[i]? = none := by simp; omega
    have hnone' : ls[i]? = none := by simp; omega
    have hne : i ≠ ls.length := by omega
    simp [IsRow, hnone, hnone', hne]

theorem IsAccount.extend {ls : List Line} {rows : List Row} (h : IsAccount ls rows) {line : Line}
    (hin : InBlock ls ls.length) (hc : Counts line) :
    IsAccount (ls ++ [line]) (rows ++ [(ls.length, readTrimmed (trim line))]) where
  ascending := by
    rw [List.pairwise_append]
    refine ⟨h.ascending, List.pairwise_singleton _ _, fun row hrow new hnew => ?_⟩
    rw [List.mem_singleton.1 hnew]
    exact ((h.mem_iff row).1 hrow).lt_length
  mem_iff row := by
    rw [isRow_append, List.mem_append, List.mem_singleton, h.mem_iff]
    simp [hin, hc]

theorem IsAccount.keep {ls : List Line} {rows : List Row} (h : IsAccount ls rows) {line : Line}
    (hno : ¬ (InBlock ls ls.length ∧ Counts line)) : IsAccount (ls ++ [line]) rows where
  ascending := h.ascending
  mem_iff row := by
    rw [isRow_append, h.mem_iff]
    simp [hno]

/-- What the pass holds after some lines: their account, and where the block stands. -/
structure Reads (ls : List Line) (rows : List Row) (s : Scan) : Prop where
  fits : s.phase.Fits ls
  account : IsAccount ls rows
  columns : s.columns = rows.filterMap rowColumn?
  failures : s.failures = rows.filterMap rowFailure?

theorem reads_nil : Reads [] [] .start where
  fits := by simp [Scan.start, Phase.Fits]
  account := ⟨.nil, fun row => by simp [IsRow]⟩
  columns := rfl
  failures := rfl

theorem columns_add (s : Scan) (i : Nat) (said : Except Refusal Column) :
    (s.add (i + 1) said).columns = s.columns ++ (rowColumn? (i, said)).toList := by
  cases said <;> simp [Scan.add, rowColumn?]

theorem failures_add (s : Scan) (i : Nat) (said : Except Refusal Column) :
    (s.add (i + 1) said).failures = s.failures ++ (rowFailure? (i, said)).toList := by
  cases said <;> simp [Scan.add, rowFailure?]

theorem step_of_counts {s : Scan} {line : Line} {n : Nat} (hp : s.phase = .block)
    (hc : Counts line) :
    (s.step (line, n)).columns = (s.add n (readTrimmed (trim line))).columns ∧
      (s.step (line, n)).failures = (s.add n (readTrimmed (trim line))).failures := by
  simp only [Scan.step, hp, (isCounted_iff line).2 hc, Bool.not_true, Bool.false_eq_true, if_false]
  split <;> exact ⟨rfl, rfl⟩

theorem step_of_not {s : Scan} {line : Line} {n : Nat}
    (h : ¬ (s.phase = .block ∧ Counts line)) :
    (s.step (line, n)).columns = s.columns ∧ (s.step (line, n)).failures = s.failures := by
  unfold Scan.step
  split
  · exact ⟨rfl, rfl⟩
  · exact ⟨rfl, rfl⟩
  · rename_i hp
    have hn : isCounted line = false := by
      rw [← Bool.not_eq_true, isCounted_iff]
      exact fun hc => h ⟨hp, hc⟩
    simp [hn]
  · exact ⟨rfl, rfl⟩

section Step

variable {ls : List Line} {rows : List Row} {s : Scan} {line : Line}

theorem Reads.step_of_counts (h : Reads ls rows s) (hp : s.phase = .block) (hc : Counts line) :
    Reads (ls ++ [line]) (rows ++ [(ls.length, readTrimmed (trim line))])
      (s.step (line, ls.length + 1)) := by
  obtain ⟨hcols, hfails⟩ := Ddl.step_of_counts (n := ls.length + 1) hp hc
  refine ⟨fits_step line h.fits, h.account.extend ((inBlock_length_iff h.fits).2 hp) hc, ?_, ?_⟩
  · rw [hcols, columns_add, h.columns, List.filterMap_append]
    cases readTrimmed (trim line) <;> rfl
  · rw [hfails, failures_add, h.failures, List.filterMap_append]
    cases readTrimmed (trim line) <;> rfl

theorem Reads.step_of_not (h : Reads ls rows s) (hno : ¬ (s.phase = .block ∧ Counts line)) :
    Reads (ls ++ [line]) rows (s.step (line, ls.length + 1)) := by
  obtain ⟨hcols, hfails⟩ := Ddl.step_of_not (n := ls.length + 1) hno
  rw [← inBlock_length_iff h.fits] at hno
  exact ⟨fits_step line h.fits, h.account.keep hno, hcols.trans h.columns,
    hfails.trans h.failures⟩

theorem reads_step (h : Reads ls rows s) (line : Line) :
    ∃ more, Reads (ls ++ [line]) (rows ++ more) (s.step (line, ls.length + 1)) := by
  by_cases hrow : s.phase = .block ∧ Counts line
  · exact ⟨_, h.step_of_counts hrow.1 hrow.2⟩
  · exact ⟨[], by rw [List.append_nil]; exact h.step_of_not hrow⟩

end Step

theorem ofLines_concat (ls : List Line) (line : Line) :
    Scan.ofLines (ls ++ [line]) = (Scan.ofLines ls).step (line, ls.length + 1) := by
  simp [Scan.ofLines, List.zipIdx_append, Nat.add_comm]

theorem reads_ofLines (ls : List Line) : ∃ rows, Reads ls rows (.ofLines ls) := by
  -- On the last line, as the pass reads from the front.
  induction ls using List.reverseRecOn with
  | nil => exact ⟨[], reads_nil⟩
  | append_singleton ls line ih =>
    obtain ⟨rows, h⟩ := ih
    obtain ⟨more, hstep⟩ := reads_step h line
    exact ⟨_, ofLines_concat ls line ▸ hstep⟩

theorem exists_columns_eq {text : List Char} {i : Nat} {line : Line} {c : Column}
    (hline : (lines text)[i]? = some line) (hin : InBlock (lines text) i) (hcounts : Counts line)
    (hread : readTrimmed (trim line) = .ok c) : ∃ above below,
      IsAccount (lines text) (above ++ (i, .ok c) :: below) ∧
      columns text = above.filterMap rowColumn? ++ c :: below.filterMap rowColumn? := by
  obtain ⟨rows, hreads⟩ := reads_ofLines (lines text)
  have hmem : (i, .ok c) ∈ rows :=
    (hreads.account.mem_iff _).2 ⟨line, hline, hin, hcounts, hread.symm⟩
  obtain ⟨above, below, rfl⟩ := List.append_of_mem hmem
  exact ⟨above, below, hreads.account, hreads.columns.trans List.filterMap_append⟩

section Below

variable {ls : List Line}

theorem phase_ofLines_append (hp : (Scan.ofLines ls).phase = .block) {below : List Line}
    (hopen : ∀ line ∈ below, ¬ Closes line) : (Scan.ofLines (ls ++ below)).phase = .block := by
  induction below using List.reverseRecOn with
  | nil => rwa [List.append_nil]
  | append_singleton below line ih =>
    rw [List.forall_mem_append, List.forall_mem_singleton] at hopen
    have hcloses : closesBlock line = false := by
      rw [← Bool.not_eq_true, closesBlock_iff]
      exact hopen.2
    rw [← List.append_assoc, ofLines_concat]
    simp only [Scan.step, ih hopen.1, hcloses]
    split <;> simp [ih hopen.1]

/-- In the block each line that counts adds its row, if none of them but perhaps the last closes
it. -/
theorem Reads.append {rows : List Row} (h : Reads ls rows (.ofLines ls))
    (hp : (Scan.ofLines ls).phase = .block) {below : List Line}
    (hopen : ∀ line ∈ (below.filter isCounted).dropLast, ¬ Closes line) :
    ∃ more, Reads (ls ++ below) (rows ++ more) (.ofLines (ls ++ below)) ∧
      more.map (·.2) = (below.filter isCounted).map fun line => readTrimmed (trim line) := by
  induction below using List.reverseRecOn with
  | nil => exact ⟨[], by rwa [List.append_nil, List.append_nil], rfl⟩
  | append_singleton below line ih =>
    rw [List.filter_append] at hopen ⊢
    rw [← List.append_assoc, ofLines_concat]
    by_cases hc : Counts line
    · rw [List.filter_singleton, (isCounted_iff line).2 hc, cond_true] at hopen ⊢
      rw [List.dropLast_concat] at hopen
      have hphase : (Scan.ofLines (ls ++ below)).phase = .block := by
        refine phase_ofLines_append hp fun l hl hcloses => ?_
        exact hopen l (List.mem_filter.2 ⟨hl, (isCounted_iff l).2 hcloses.counts⟩) hcloses
      obtain ⟨more, hreads, hmore⟩ := ih fun l hl => hopen l (List.dropLast_subset _ hl)
      refine ⟨more ++ [((ls ++ below).length, readTrimmed (trim line))], ?_, ?_⟩
      · rw [← List.append_assoc]
        exact hreads.step_of_counts hphase hc
      · rw [List.map_append, hmore, List.map_append]
        rfl
    · have hn : isCounted line = false := by rwa [← Bool.not_eq_true, isCounted_iff]
      rw [List.filter_singleton, hn, cond_false, List.append_nil] at hopen ⊢
      obtain ⟨more, hreads, hmore⟩ := ih hopen
      exact ⟨more, hreads.step_of_not fun hrow => hc hrow.2, hmore⟩

end Below

theorem length_columns_failures (rows : List Row) :
    (rows.filterMap rowColumn?).length + (rows.filterMap rowFailure?).length = rows.length := by
  induction rows with
  | nil => rfl
  | cons row rows ih =>
    obtain ⟨i, said⟩ := row
    cases said <;> simp only [List.filterMap_cons, rowColumn?, rowFailure?, List.length_cons] <;>
      omega

theorem IsAccount.getLast?_of_closes {ls : List Line} {rows : List Row} (h : IsAccount ls rows)
    {i : Nat} {line : Line} (hline : ls[i]? = some line) (hin : InBlock ls i)
    (hc : Closes line) : rows.getLast? = some (i, .error ⟨[], .unexpectedFormat⟩) := by
  have hmem : (i, .error ⟨[], .unexpectedFormat⟩) ∈ rows :=
    (h.mem_iff _).2 ⟨line, hline, hin, hc.counts, hc.readTrimmed.symm⟩
  obtain ⟨front, back, rfl⟩ := List.append_of_mem hmem
  cases back with
  | nil => simp
  | cons row back =>
    -- A row after this one would be a line of the block below the line that closes it.
    have hrow : IsRow ls row := (h.mem_iff row).1 (by simp)
    have hlt : i < row.1 :=
      List.rel_of_pairwise_cons (List.pairwise_append.1 h.ascending).2.1 List.mem_cons_self
    obtain ⟨-, -, hin', -⟩ := hrow
    exact absurd hin' (not_inBlock_after hin hline hc hlt)

theorem phase_of_closes {ls : List Line} {p : Phase} (h : p.Fits ls) {i : Nat} {line : Line}
    (hline : ls[i]? = some line) (hin : InBlock ls i) (hc : Closes line) : p = .closed := by
  have hlt : i < ls.length := (List.getElem?_eq_some_iff.1 hline).1
  have ⟨k, _, hk, _⟩ := hin
  cases p with
  | outside =>
    obtain ⟨opener, hmem, ho⟩ := opener_of_mayEndHeader hk.1
    simp [h opener hmem] at ho
  | header => exact absurd hk.1 (h.2 k)
  | block => exact absurd h (not_inBlock_after hin hline hc hlt)
  | closed => rfl

theorem foldl_step_closed {s : Scan} (h : s.phase = .closed) (more : List (Line × Nat)) :
    more.foldl Scan.step s = s := by
  induction more with
  | nil => rfl
  | cons line more ih =>
    have hstep : s.step line = s := by simp [Scan.step, h]
    rw [List.foldl_cons, hstep, ih]

theorem ofLines_append_of_closes {ls : List Line} (more : List Line) {i : Nat} {line : Line}
    (hline : ls[i]? = some line) (hin : InBlock ls i) (hc : Closes line) :
    Scan.ofLines (ls ++ more) = Scan.ofLines ls := by
  obtain ⟨rows, h⟩ := reads_ofLines ls
  have hphase : (Scan.ofLines ls).phase = .closed := phase_of_closes h.fits hline hin hc
  rw [Scan.ofLines, List.zipIdx_append, List.foldl_append]
  exact foldl_step_closed hphase _

/-- The columns and failures of a text are the entries of its column block, one for each line of
the block that is neither blank nor a comment and none for any other line. Without a line that ends
the header there are none. The line that closes the block is the last failure, and no text after
the end of that line changes anything. -/
theorem columns_failures_account (text : List Char) :
    (∃ rows, IsAccount (lines text) rows ∧
      columns text = rows.filterMap rowColumn? ∧
      failures text = rows.filterMap rowFailure? ∧
      (columns text).length + (failures text).length = rows.length) ∧
    ((∀ h, ¬ EndsHeader (lines text) h) → columns text = [] ∧ failures text = []) ∧
    ∀ i line, (lines text)[i]? = some line → InBlock (lines text) i → Closes line →
      (failures text).getLast? = some ⟨"", "", i + 1, .unexpectedFormat⟩ ∧
      (text.getLast? = some '\n' → ∀ rest,
        columns (text ++ rest) = columns text ∧ failures (text ++ rest) = failures text) := by
  obtain ⟨rows, h⟩ := reads_ofLines (lines text)
  refine ⟨⟨rows, h.account, h.columns, h.failures, ?_⟩, fun hno => ?_,
    fun i line hline hin hc => ⟨?_, ?_⟩⟩
  · rw [columns, failures, h.columns, h.failures, length_columns_failures]
  · have hrows : rows = [] := by
      refine List.eq_nil_iff_forall_not_mem.2 fun row hrow => ?_
      obtain ⟨-, -, ⟨k, -, hk, -⟩, -⟩ := (h.account.mem_iff row).1 hrow
      exact hno k hk
    rw [columns, failures, h.columns, h.failures, hrows]
    exact ⟨rfl, rfl⟩
  · obtain ⟨front, hfront⟩ :=
      List.getLast?_eq_some_iff.1 (h.account.getLast?_of_closes hline hin hc)
    rw [failures, h.failures, hfront, List.filterMap_append]
    simp only [List.filterMap_cons, rowFailure?, List.filterMap_nil, List.getLast?_concat]
    rfl
  · intro hend rest
    rw [columns, failures, lines_append_of_feed text rest hend,
      ofLines_append_of_closes (lines rest) hline hin hc]
    exact ⟨rfl, rfl⟩

example : failures "CREATE TABLE t (\n  -- a comment\n  id int,\n)\nid int".toList =
    [⟨"", "", 4, .unexpectedFormat⟩] := by decide +kernel

end SchemaModels.Ddl
