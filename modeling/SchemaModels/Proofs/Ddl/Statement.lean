import Mathlib.Data.List.Forall2
import SchemaModels.Proofs.Ddl.Header
import SchemaModels.Proofs.Ddl.WellFormed

namespace SchemaModels.Ddl

open Text

/-- A definition of a column on one line: its name, its type, and whatever follows them. -/
structure Definition where
  name : String
  gap : List Char
  type : List Char
  more : List Char
  isWord_name : Name.IsWord name
  isGap_gap : IsGap gap
  type_ne_nil : type ≠ []
  isWord_type : ∀ c ∈ type, isWord c = true
  noFeed : '\n' ∉ gap ++ more

namespace Definition

def start (d : Definition) : List Char := d.name.toList ++ (d.gap ++ d.type)

def text (d : Definition) : List Char := d.start ++ d.more

end Definition

structure Item where
  gap : List Char
  definition : Definition
  isBlank_gap : ∀ c ∈ gap, isBlank c = true

def Item.text (item : Item) : List Char := item.gap ++ item.definition.text

/-- A statement whose first two words stand on one line. Between its other parts there may be any
blanks and line feeds. -/
structure Statement where
  create : List Char
  gap : List Char
  table : List Char
  space : List Char
  name : String
  beforeOpen : List Char
  items : List Item
  beforeClose : List Char
  afterClose : List Char
  spells_create : Spells "create" create
  isGap_gap : IsGap gap
  noFeed : '\n' ∉ gap
  spells_table : Spells "table" table
  isGap_space : IsGap space
  isWord_name : Name.IsWord name
  isBlank_beforeOpen : ∀ c ∈ beforeOpen, isBlank c = true
  isBlank_beforeClose : ∀ c ∈ beforeClose, isBlank c = true
  isBlank_afterClose : ∀ c ∈ afterClose, isBlank c = true

namespace Statement

def head (s : Statement) : List Char :=
  s.create ++ s.gap ++ s.table ++ (s.space ++ (s.name.toList ++ s.beforeOpen))

def close (s : Statement) : List Char := s.beforeClose ++ (')' :: s.afterClose)

def body (s : Statement) : List Char := [','].intercalate (s.items.map Item.text) ++ s.close

def text (s : Statement) : List Char := s.head ++ '(' :: s.body

def gaps (s : Statement) : List (List Char) := s.items.map (·.gap) ++ [s.beforeClose]

end Statement

/-- What a line of a block may start with. -/
inductive Entry where
  | definition (d : Definition)
  | close

namespace Entry

def start : Entry → List Char
  | definition d => d.start
  | close => [')']

def name : Entry → String
  | definition d => d.name
  | close => ""

end Entry

/-- The definitions that stand first on their lines, and the parenthesis that closes the statement
if it does. -/
def Statement.entries (s : Statement) : List Entry :=
  (s.items.filter (·.gap.contains '\n')).map (.definition ·.definition) ++
    if s.beforeClose.contains '\n' then [.close] else []

/-- Behind a piece of a line, a text starts the lines below that count: one with each start, in
order. -/
def StartsBelow (starts : List (List Char)) (rest : List Char) : Prop :=
  ∀ piece, piece ≠ [] → '\n' ∉ piece → ∃ first below after,
    lines (piece ++ rest) = first :: below ∧ trim first = trim (piece ++ after) ∧
      List.Forall₂ (fun start line => start <+: trim line) starts (below.filter isCounted)

theorem filter_isCounted_of_blank {ls : List Line}
    (h : ∀ line ∈ ls, ∀ c ∈ line, isBlank c = true) : ls.filter isCounted = [] := by
  rw [List.filter_eq_nil_iff]
  intro line hline
  simp [isCounted, trim_of_blank (h line hline)]

theorem startsBelow_of_blank {rest : List Char} (h : ∀ c ∈ rest, isBlank c = true) :
    StartsBelow [] rest := by
  intro piece hne hpiece
  by_cases hfeed : '\n' ∈ rest
  · obtain ⟨line, below, rfl, hline⟩ := List.eq_append_cons_of_mem hfeed
    have hfirst : '\n' ∉ piece ++ line := by simp [hpiece, hline]
    refine ⟨dropReturn (piece ++ line), lines below, line, ?_, trim_dropReturn _, ?_⟩
    · rw [← List.append_assoc, lines_append_feed hfirst]
    · rw [filter_isCounted_of_blank]
      · exact .nil
      · intro l hl c hc
        obtain ⟨i, hi⟩ := List.mem_iff_getElem?.1 hl
        obtain ⟨-, front, back, rfl, -⟩ := exists_append_of_getElem?_lines hi
        exact h c (by simp [hc])
  · have hnone : '\n' ∉ piece ++ rest := by simp [hpiece, hfeed]
    refine ⟨piece ++ rest, [], rest, ?_, rfl, .nil⟩
    rw [lines_of_notMem hnone, if_neg (by simp [hne])]

theorem StartsBelow.append_left {starts : List (List Char)} {rest : List Char}
    (h : StartsBelow starts rest) {part : List Char} (hpart : '\n' ∉ part) :
    StartsBelow starts (part ++ rest) := by
  intro piece hne hpiece
  obtain ⟨first, below, after, hlines, hfirst, hstarts⟩ :=
    h (piece ++ part) (by simp [hne]) (by simp [hpiece, hpart])
  rw [List.append_assoc] at hlines hfirst
  exact ⟨first, below, part ++ after, hlines, hfirst, hstarts⟩

/-- A part of a text that keeps its place at the start of a line that counts. -/
structure IsStart (start : List Char) : Prop where
  notEmpty : start ≠ []
  noFeed : '\n' ∉ start
  head : ∀ c ∈ start.head?, isBlank c = false ∧ c ≠ '-' ∧ c ≠ '#'
  last : ∀ c ∈ start.getLast?, isBlank c = false

namespace IsStart

variable {start : List Char}

theorem isPrefix_trim (h : IsStart start) {indent : List Char}
    (hindent : ∀ c ∈ indent, isBlank c = true) (after : List Char) :
    start <+: trim (indent ++ start ++ after) := by
  have htrim := trimWhere_append (start ++ after) hindent (List.forall_mem_nil _)
  rw [List.append_nil, ← List.append_assoc] at htrim
  rw [trim, htrim, trimWhere_append_of_ends h.notEmpty (fun c hc => (h.head c hc).1) h.last]
  exact List.prefix_append _ _

theorem isCounted (h : IsStart start) {line : Line} (hline : start <+: trim line) :
    Ddl.isCounted line = true := by
  obtain ⟨c, cs, rfl⟩ := List.exists_cons_of_ne_nil h.notEmpty
  obtain ⟨-, hdash, hhash⟩ := h.head c rfl
  obtain ⟨after, hafter⟩ := hline
  rw [isCounted_iff, Counts, ← hafter]
  simp [List.cons_prefix_cons, hdash.symm, hhash.symm]

/-- Behind a line feed the start has a line of its own; otherwise it goes on with the line that is
there. -/
theorem startsBelow (h : IsStart start) {starts : List (List Char)} {rest : List Char}
    (hrest : StartsBelow starts rest) {gap : List Char} (hgap : ∀ c ∈ gap, isBlank c = true) :
    StartsBelow ((if gap.contains '\n' then [start] else []) ++ starts)
      (gap ++ (start ++ rest)) := by
  split
  · rename_i hfeed
    intro piece hne hpiece
    obtain ⟨line, indent, rfl, hline⟩ := List.eq_append_cons_of_mem (List.contains_iff_mem.1 hfeed)
    have hfirst : '\n' ∉ piece ++ line := by simp [hpiece, hline]
    have hindent : ∀ c ∈ indent, isBlank c = true := fun c hc => hgap c (by simp [hc])
    obtain ⟨above, last, habove, hlast, hnoFeed, -, hlines⟩ := exists_lines_append indent
    obtain ⟨own, below, after, hown, htrim, hbelow⟩ :=
      hrest (last ++ start) (by simp [h.notEmpty]) (by simp [hnoFeed, h.noFeed])
    have hstart : start <+: trim own :=
      htrim ▸ h.isPrefix_trim (fun c hc => hindent c (hlast hc)) after
    refine ⟨dropReturn (piece ++ line), above ++ own :: below, line, ?_, trim_dropReturn _, ?_⟩
    · rw [List.append_assoc, ← List.append_assoc piece, List.cons_append,
        lines_append_feed hfirst, hlines, ← List.append_assoc, hown]
    · have hblank : above.filter Ddl.isCounted = [] :=
        filter_isCounted_of_blank fun l hl c hc => hindent c (habove l hl hc)
      rw [List.filter_append, hblank, List.nil_append,
        List.filter_cons_of_pos (h.isCounted hstart)]
      exact .cons hstart hbelow
  · rename_i hfeed
    have hnoFeed : '\n' ∉ gap := fun hmem => hfeed (List.contains_iff_mem.2 hmem)
    exact (hrest.append_left h.noFeed).append_left hnoFeed

end IsStart

namespace Definition

variable (d : Definition)

theorem isWord_head {c : Char} (hc : c ∈ d.start.head?) : isWord c = true := by
  have hname : d.name.toList ≠ [] := by simpa using d.isWord_name.notEmpty
  rw [start, List.head?_append_of_ne_nil _ hname] at hc
  exact d.isWord_name.isWord c (List.mem_of_mem_head? hc)

theorem isWord_last {c : Char} (hc : c ∈ d.start.getLast?) : isWord c = true := by
  rw [start, ← List.append_assoc, List.getLast?_append_of_ne_nil _ d.type_ne_nil] at hc
  exact d.isWord_type c (List.mem_of_getLast? hc)

theorem feed_notMem_start : '\n' ∉ d.start := by
  have hword : isWord '\n' = false := by decide
  have hname := d.isWord_name.isWord '\n'
  have htype := d.isWord_type '\n'
  have hgap := d.noFeed
  simp only [start, List.mem_append, not_or] at hgap ⊢
  grind

theorem isStart : IsStart d.start where
  notEmpty := by simp [start, d.type_ne_nil]
  noFeed := d.feed_notMem_start
  head c hc := by
    have hword := d.isWord_head hc
    refine ⟨isBlank_of_isWord hword, ?_, ?_⟩
    · rintro rfl
      exact absurd hword (by decide)
    · rintro rfl
      exact absurd hword (by decide)
  last c hc := isBlank_of_isWord (d.isWord_last hc)

theorem columnText_start (after : List Char) :
    ∃ after', columnText (d.start ++ after) = d.start ++ after' := by
  have hword {c : Char} (h : isWord c = true) : (c == ',') = false := by
    rw [beq_eq_false_iff_ne]
    rintro rfl
    exact absurd h (by decide)
  rw [columnText, trim,
    trimWhere_append_of_ends d.isStart.notEmpty (fun c hc => hword (d.isWord_head hc))
      fun c hc => hword (d.isWord_last hc),
    trimWhere_append_of_ends d.isStart.notEmpty (fun c hc => isBlank_of_isWord (d.isWord_head hc))
      d.isStart.last]
  exact ⟨_, rfl⟩

end Definition

def saidName : Except Refusal Column → String
  | .ok c => c.name
  | .error r => String.ofList r.name

/-- Whatever becomes of a line, it is recorded under its first word. -/
theorem saidName_readColumn (line : List Char) :
    saidName (readColumn line) = String.ofList (nextRun isWord (columnText line)).1 := by
  cases h : readColumn line with
  | ok c =>
    obtain ⟨_, name, rest, raw, rest', kind, rfl, -, hfirst, -, -, -, -, rfl⟩ :=
      readColumn_eq_ok.1 h
    rw [hfirst]
    rfl
  | error r =>
    obtain ⟨_, name, rest, raw, rest', rfl, hfirst, -, hname, -⟩ := readColumn_eq_error.1 h
    rw [hfirst, saidName, hname]

theorem Definition.not_closes (d : Definition) {line : Line} (h : d.start <+: trim line) :
    ¬ Closes line := by
  rintro ⟨back, hclose⟩
  obtain ⟨after, hstart⟩ := h
  have hhead : (d.start ++ after).head? = some ')' := by
    rw [hstart, ← hclose]
    rfl
  rw [List.head?_append_of_ne_nil _ d.isStart.notEmpty] at hhead
  exact absurd (d.isWord_head hhead) (by decide)

theorem Definition.saidName_readTrimmed (d : Definition) {line : List Char}
    (h : d.start <+: line) : saidName (readTrimmed line) = d.name := by
  obtain ⟨after, rfl⟩ := h
  have hparen : (d.start ++ after).head? ≠ some ')' := by
    rw [List.head?_append_of_ne_nil _ d.isStart.notEmpty]
    intro hhead
    exact absurd (d.isWord_head hhead) (by decide)
  obtain ⟨after', htext⟩ := d.columnText_start after
  have hname : d.name.toList ≠ [] := by simpa using d.isWord_name.notEmpty
  obtain ⟨b, gap, hgap⟩ := List.exists_cons_of_ne_nil d.isGap_gap.notEmpty
  have hfirst : nextRun isWord (d.start ++ after') =
      (d.name.toList, d.gap ++ d.type ++ after') := by
    rw [Definition.start, List.append_assoc]
    refine nextRun_append (List.forall_mem_nil _) d.isWord_name.isWord hname ?_
    rw [hgap]
    rintro _ ⟨rfl⟩
    exact isWord_of_isBlank (d.isGap_gap.isBlank b (hgap ▸ List.mem_cons_self))
  rw [readTrimmed, beq_eq_false_iff_ne.2 hparen, if_neg Bool.false_ne_true, saidName_readColumn,
    htext, hfirst, String.ofList_toList]

theorem Entry.saidName_readTrimmed (e : Entry) {line : Line} (h : e.start <+: trim line) :
    saidName (readTrimmed (trim line)) = e.name := by
  cases e with
  | definition d => exact d.saidName_readTrimmed h
  | close =>
    rw [Closes.readTrimmed h]
    rfl

theorem isStart_paren : IsStart [')'] where
  notEmpty := List.cons_ne_nil _ _
  noFeed := by decide
  head := by
    rintro _ ⟨rfl⟩
    decide
  last := by
    rintro _ ⟨rfl⟩
    decide

theorem startsBelow_items {starts : List (List Char)} {close : List Char}
    (hclose : StartsBelow starts close) (items : List Item) :
    StartsBelow ((items.filter (·.gap.contains '\n')).map (·.definition.start) ++ starts)
      ([','].intercalate (items.map Item.text) ++ close) := by
  induction items with
  | nil => exact hclose
  | cons item items ih =>
    obtain ⟨between, hbetween, htext⟩ :=
      exists_intercalate_cons ',' item.text (items.map Item.text)
    have hnoFeed : '\n' ∉ item.definition.more ++ between := by
      have hmore : '\n' ∉ item.definition.more := fun hmem =>
        item.definition.noFeed (List.mem_append_right _ hmem)
      have hsep : '\n' ∉ between := fun hmem => absurd (hbetween hmem) (by decide)
      simp [hmore, hsep]
    have hitem := item.definition.isStart.startsBelow (ih.append_left hnoFeed) item.isBlank_gap
    rw [List.map_cons, htext, List.filter_cons]
    simp only [Item.text, Definition.text, List.append_assoc] at hitem ⊢
    split at hitem <;> rename_i hfeed
    · rwa [if_pos hfeed]
    · rwa [if_neg hfeed]

namespace Statement

variable (s : Statement)

theorem startsBelow_body : StartsBelow (s.entries.map Entry.start) s.body := by
  have hafter : StartsBelow [] s.afterClose := startsBelow_of_blank s.isBlank_afterClose
  have hclose := isStart_paren.startsBelow hafter s.isBlank_beforeClose
  have hstarts : s.entries.map Entry.start =
      (s.items.filter (·.gap.contains '\n')).map (·.definition.start) ++
        ((if s.beforeClose.contains '\n' then [[')']] else []) ++ []) := by
    rw [entries, List.map_append, List.map_map, List.append_nil, apply_ite (List.map Entry.start)]
    rfl
  rw [hstarts]
  exact startsBelow_items hclose s.items

theorem paren_notMem_head : '(' ∉ s.head := by
  have hword : isWord '(' = false := by decide
  have hblank : isBlank '(' = false := by decide
  have hcreate := (isWord_of_spells (by decide +kernel) s.spells_create).2 '('
  have htable := (isWord_of_spells (by decide +kernel) s.spells_table).2 '('
  have hgap := s.isGap_gap.isBlank '('
  have hspace := s.isGap_space.isBlank '('
  have hname := s.isWord_name.isWord '('
  have hbefore := s.isBlank_beforeOpen '('
  simp only [head, List.mem_append, not_or]
  grind

theorem opening : Opening s.text s.create s.gap s.table
    (s.space ++ (s.name.toList ++ s.beforeOpen) ++ '(' :: s.body) where
  text := by simp [text, head]
  create := s.spells_create
  gap := s.isGap_gap
  table := s.spells_table
  wordEnds := by
    obtain ⟨b, space, hspace⟩ := List.exists_cons_of_ne_nil s.isGap_space.notEmpty
    have hb := s.isGap_space.isBlank b (hspace ▸ List.mem_cons_self)
    simp [hspace, wordEnds, isWord_of_isBlank hb]

theorem endsHeader : EndsHeader (lines s.text) (s.head.count '\n') := by
  have hholds (i : Nat) : LineHolds (lines s.text) i '(' ↔
      ∃ front back, s.text = front ++ '(' :: back ∧ front.count '\n' = i :=
    lineHolds_iff (by decide) (by decide)
  have hopens : Opens (lines s.text) 0 := s.opening.opens s.noFeed []
  refine ⟨⟨(hholds _).2 ⟨s.head, s.body, rfl, rfl⟩, 0, Nat.zero_le _, hopens⟩, ?_⟩
  rintro j hj ⟨hline, -⟩
  obtain ⟨front, back, heq, rfl⟩ := (hholds j).1 hline
  obtain ⟨mid, rfl, -⟩ := exists_of_append_eq_append_cons heq s.paren_notMem_head
  rw [List.count_append] at hj
  omega

/-- Only the last line of the block that counts may close it. -/
theorem exists_definition {e : Entry} (he : e ∈ s.entries.dropLast) : ∃ d, e = .definition d := by
  have hdefinition (he : e ∈ (s.items.filter (·.gap.contains '\n')).map
      (Entry.definition ·.definition)) : ∃ d, e = .definition d := by
    obtain ⟨item, -, rfl⟩ := List.mem_map.1 he
    exact ⟨_, rfl⟩
  unfold entries at he
  split at he
  · rw [List.dropLast_concat] at he
    exact hdefinition he
  · rw [List.append_nil] at he
    exact hdefinition (List.dropLast_subset _ he)

theorem length_entries : s.entries.length = s.gaps.countP (·.contains '\n') := by
  rw [entries, gaps, List.length_append, List.length_map, ← List.countP_eq_length_filter,
    List.countP_append, List.countP_map, List.countP_singleton]
  split <;> rfl

/-- The lines of a statement: those up to the end of its header, and those below that count, one
for each entry. -/
theorem exists_lines : ∃ above first below, lines s.text = above ++ [first] ++ below ∧
    above.length = s.head.count '\n' ∧
    List.Forall₂ (fun e line => e.start <+: trim line) s.entries (below.filter isCounted) := by
  obtain ⟨above, last, -, -, hlast, hlen, hlines⟩ := exists_lines_append s.head
  obtain ⟨first, below, -, hown, -, hstarts⟩ :=
    s.startsBelow_body (last ++ ['(']) (by simp) (by simp [hlast])
  refine ⟨above, first, below, ?_, hlen, List.forall₂_map_left_iff.1 hstarts⟩
  rw [text, hlines, ← List.singleton_append, ← List.append_assoc last, hown]
  simp

section Starts

variable {ls : List Line}
  (h : List.Forall₂ (fun e line => Entry.start e <+: trim line) s.entries ls)
include h

theorem not_closes_of_mem_dropLast {line : Line} (hline : line ∈ ls.dropLast) : ¬ Closes line := by
  have hfront := List.forall₂_take (ls.length - 1) h
  rw [← List.dropLast_eq_take, ← h.length_eq, ← List.dropLast_eq_take] at hfront
  obtain ⟨e, he, hstart⟩ := exists_of_forall₂ hfront hline
  obtain ⟨d, rfl⟩ := s.exists_definition he
  exact d.not_closes hstart

theorem map_saidName_readTrimmed :
    ls.map (fun line => saidName (readTrimmed (trim line))) = s.entries.map Entry.name := by
  rw [eq_comm, ← List.forall₂_eq_eq_eq, List.forall₂_map_left_iff, List.forall₂_map_right_iff]
  exact h.imp fun e line hstart => (e.saidName_readTrimmed hstart).symm

end Starts

theorem exists_rows : ∃ rows, Reads (lines s.text) rows (.ofLines (lines s.text)) ∧
    rows.map (saidName ·.2) = s.entries.map Entry.name := by
  obtain ⟨above, first, below, htext, hlen, hstarts⟩ := s.exists_lines
  have htake : (lines s.text).take (above.length + 1) = above ++ [first] := by
    rw [htext, List.take_left' (by simp)]
  have hends : EndsHeader (lines s.text) above.length := hlen ▸ s.endsHeader
  have hheader : Reads (above ++ [first]) [] (.ofLines (above ++ [first])) :=
    htake ▸ hends.reads_take
  have hphase : (Scan.ofLines (above ++ [first])).phase = .block :=
    htake ▸ (entersAfter_iff.2 hends).behind
  obtain ⟨rows, hreads, hsaid⟩ :=
    hheader.append hphase fun line hline => s.not_closes_of_mem_dropLast hstarts hline
  refine ⟨rows, htext ▸ hreads, ?_⟩
  calc rows.map (saidName ·.2)
      = (rows.map (·.2)).map saidName := by
        rw [List.map_map]
        rfl
    _ = (below.filter isCounted).map fun line => saidName (readTrimmed (trim line)) := by
        rw [hsaid, List.map_map]
        rfl
    _ = s.entries.map Entry.name := s.map_saidName_readTrimmed hstarts

/-- A text of this layout has one entry for each definition with a line feed between it and what
stands in front of it, in order and under its name, a nameless one for the closing parenthesis with
a line feed in front of it, and no other. These are at least as many as the definitions exactly if
at most one of the definitions and the closing parenthesis has no line feed in front of it. -/
theorem entries_recorded : ∃ rows, IsAccount (lines s.text) rows ∧
    columns s.text = rows.filterMap rowColumn? ∧ failures s.text = rows.filterMap rowFailure? ∧
    rows.map (saidName ·.2) = s.entries.map Entry.name ∧
    (columns s.text).length + (failures s.text).length = s.gaps.countP (·.contains '\n') ∧
    (s.items.length ≤ (columns s.text).length + (failures s.text).length ↔
      (s.gaps.countP fun gap => ¬ gap.contains '\n') ≤ 1) := by
  obtain ⟨rows, hreads, hnames⟩ := s.exists_rows
  have hlen : (columns s.text).length + (failures s.text).length =
      s.gaps.countP (·.contains '\n') := by
    rw [columns, failures, hreads.columns, hreads.failures, length_columns_failures,
      ← s.length_entries, ← List.length_map (saidName ·.2), hnames, List.length_map]
  have hgaps : s.gaps.length = s.items.length + 1 := by simp [gaps]
  have hsplit := s.gaps.length_eq_countP_add_countP (·.contains '\n')
  refine ⟨rows, hreads.account, hreads.columns, hreads.failures, hnames, hlen, ?_⟩
  rw [hlen]
  omega

end Statement

theorem isBlank_space : ∀ c ∈ [' '], isBlank c = true := List.forall_mem_singleton.2 (by decide)

def oneLine : Statement where
  create := "CREATE".toList
  gap := [' ']
  table := "TABLE".toList
  space := [' ']
  name := "t"
  beforeOpen := [' ']
  items := [{
    gap := []
    definition := {
      name := "id"
      gap := [' ']
      type := "int".toList
      more := []
      isWord_name := ⟨by decide, List.all_eq_true.1 (by decide)⟩
      isGap_gap := ⟨by decide, isBlank_space⟩
      type_ne_nil := by decide
      isWord_type := List.all_eq_true.1 (by decide)
      noFeed := by decide }
    isBlank_gap := List.forall_mem_nil _ }]
  beforeClose := []
  afterClose := []
  spells_create := by unfold Spells; decide +kernel
  isGap_gap := ⟨by decide, isBlank_space⟩
  noFeed := by decide
  spells_table := by unfold Spells; decide +kernel
  isGap_space := ⟨by decide, isBlank_space⟩
  isWord_name := ⟨by decide, List.all_eq_true.1 (by decide)⟩
  isBlank_beforeOpen := isBlank_space
  isBlank_beforeClose := List.forall_mem_nil _
  isBlank_afterClose := List.forall_mem_nil _

theorem oneLine_not_recorded : oneLine.text = "CREATE TABLE t (id int)".toList ∧
    ¬ ∀ s : Statement, s.items.length ≤ (columns s.text).length + (failures s.text).length := by
  have htext : oneLine.text = "CREATE TABLE t (id int)".toList := by decide +kernel
  have hcolumns : (columns "CREATE TABLE t (id int)".toList).length = 0 := by decide +kernel
  have hfailures : (failures "CREATE TABLE t (id int)".toList).length = 0 := by decide +kernel
  refine ⟨htext, fun hall => ?_⟩
  have hle : 1 ≤ (columns oneLine.text).length + (failures oneLine.text).length := hall oneLine
  rw [htext, hcolumns, hfailures] at hle
  omega

end SchemaModels.Ddl
