import SchemaModels.Proofs.Model.Layout
import SchemaModels.Report.Summary

namespace SchemaModels.Summary

open Text
open Ddl (Line)

/-- The offsets where runs of dashes start, in a text whose first character is at the offset `n`;
`inRun` tells whether a dash stands in front of it. -/
def dashStarts (n : Nat) (inRun : Bool) : Line → List Nat
  | [] => []
  | c :: cs =>
    if c = '-' then
      if inRun then dashStarts (n + 1) true cs else n :: dashStarts (n + 1) true cs
    else dashStarts (n + 1) false cs

/-- What stands between each offset and the next one, and behind the last. -/
def cutAt : List Nat → Line → List Line
  | [], _ => []
  | [start], line => [line.drop start]
  | start :: next :: starts, line => (line.take next).drop start :: cutAt (next :: starts) line

/-- A line with the cells of a row in full, each at the offset where its column starts. -/
structure HoldsAt (starts : List Nat) (row : Row) (line : Line) : Prop where
  whole : (cutAt starts line).flatten = line
  reaches : ∀ start ∈ starts, start < line.length
  filled : List.Forall₂ (fun cell piece => ∃ n, piece = cell.toList ++ List.replicate n ' ') row
    (cutAt starts line)
  apart : ∀ piece ∈ (cutAt starts line).dropLast, [' ', ' '] <:+ piece
  trimmed : (cutAt starts line).map trim = row.map String.toList

def IsDashes (s : String) : Prop := s ≠ "" ∧ ∀ c ∈ s.toList, c = '-'

/-- Headings with dashes below them, then a line for each row, all in the columns that start where
the dashes do. -/
def IsBlock (headings : Row) (rows : List Row) (ls : List Line) : Prop :=
  ∃ header dashes body, ls = header :: dashes :: body ∧
    HoldsAt (dashStarts 0 false dashes) headings header ∧
    (∃ row : Row, (∀ cell ∈ row, IsDashes cell) ∧
      HoldsAt (dashStarts 0 false dashes) row dashes) ∧
    List.Forall₂ (HoldsAt (dashStarts 0 false dashes)) rows body

/-- A text of one line without blanks at its ends. -/
structure IsTight (s : String) : Prop where
  first : ∀ c ∈ s.toList.head?, isBlank c = false
  last : ∀ c ∈ s.toList.getLast?, isBlank c = false
  oneLine : OneLine s

theorem isTight_iff {s : String} : IsTight s ↔
    s.toList.head?.any isBlank = false ∧ s.toList.getLast?.any isBlank = false ∧ OneLine s := by
  rw [Option.any_eq_false, Option.any_eq_false]
  exact ⟨fun h => ⟨h.first, h.last, h.oneLine⟩,
    fun ⟨first, last, oneLine⟩ => ⟨first, last, oneLine⟩⟩

instance (s : String) : Decidable (IsTight s) := decidable_of_iff' _ isTight_iff

/-- A row that a line holds up to its last cell. -/
structure IsReadable (row : Row) : Prop where
  tight : ∀ cell ∈ row, IsTight cell
  notEmpty : row ≠ []
  last : row.getLast? ≠ some ""

theorem isBlank_of_mem_replicate (n : Nat) : ∀ c ∈ List.replicate n ' ', isBlank c = true := by
  intro c hc
  rw [List.eq_of_mem_replicate hc]
  rfl

theorem IsTight.trim_append {s : String} (h : IsTight s) (n : Nat) :
    trim (s.toList ++ List.replicate n ' ') = s.toList := by
  have htrim := trimWhere_append s.toList (List.forall_mem_nil _) (isBlank_of_mem_replicate n)
  rw [List.nil_append] at htrim
  rw [trim, htrim]
  exact trimWhere_eq_self h.first h.last

theorem isTight_of_forall {s : String} (h : ∀ c ∈ s.toList, isBlank c = false) : IsTight s where
  first c hc := h c (List.mem_of_mem_head? hc)
  last c hc := h c (List.mem_of_mem_getLast? hc)
  oneLine hn := absurd (h _ hn) (by decide)

theorem IsTight.between {front back : String} (hfront : IsTight front) (hback : IsTight back)
    (hne : front ≠ "") (hne' : back ≠ "") {s : String} (h : OneLine s) :
    IsTight (front ++ s ++ back) where
  first c hc := by
    rw [String.toList_append, String.toList_append, List.append_assoc,
      List.head?_append_of_ne_nil _ (mt String.toList_eq_nil_iff.1 hne)] at hc
    exact hfront.first c hc
  last c hc := by
    rw [String.toList_append, List.getLast?_append_of_ne_nil _ (mt String.toList_eq_nil_iff.1 hne')]
      at hc
    exact hback.last c hc
  oneLine := by
    rw [oneLine_append, oneLine_append]
    exact ⟨⟨hfront.oneLine, h⟩, hback.oneLine⟩

/-- The offsets of pieces one behind the other, the first of them at `n`. -/
def offsets (n : Nat) : List Line → List Nat
  | [] => []
  | piece :: pieces => n :: offsets (n + piece.length) pieces

theorem cutAt_offsets (front : Line) (pieces : List Line) :
    cutAt (offsets front.length pieces) (front ++ pieces.flatten) = pieces := by
  induction pieces generalizing front with
  | nil => rfl
  | cons piece pieces ih =>
    -- The piece joins what stands in front of the others.
    have hrest := ih (front ++ piece)
    rw [List.length_append, List.append_assoc] at hrest
    cases pieces with
    | nil =>
      rw [List.flatten_singleton]
      exact congrArg (· :: []) List.drop_left
    | cons next pieces =>
      have hpiece : ((front ++ (piece ++ (next :: pieces).flatten)).take
          (front.length + piece.length)).drop front.length = piece := by
        rw [← List.append_assoc, ← List.length_append, List.take_left, List.drop_left]
      exact congrArg₂ (· :: ·) hpiece hrest

def Fits (ws : List Nat) (row : Row) : Prop := List.Forall₂ (fun w cell => cell.length ≤ w) ws row

theorem Fits.widen {ws : List Nat} {fitting row : Row} (h : Fits ws fitting)
    (hlength : row.length = ws.length) :
    Fits (List.zipWith (fun w cell => max w cell.length) ws row) fitting := by
  induction h generalizing row with
  | nil => exact .nil
  | cons hle _ ih =>
    obtain ⟨cell, row, rfl⟩ := List.exists_cons_of_length_eq_add_one hlength
    exact .cons (hle.trans (Nat.le_max_left _ _)) (ih (Nat.succ.inj hlength))

theorem fits_zipWith {ws : List Nat} {row : Row} (hlength : row.length = ws.length) :
    Fits (List.zipWith (fun w cell => max w cell.length) ws row) row := by
  induction ws generalizing row with
  | nil =>
    rw [List.length_eq_zero_iff.1 hlength]
    exact .nil
  | cons w ws ih =>
    obtain ⟨cell, row, rfl⟩ := List.exists_cons_of_length_eq_add_one hlength
    exact .cons (Nat.le_max_right _ _) (ih (Nat.succ.inj hlength))

theorem fits_foldl {rows : List Row} {ws : List Nat}
    (hrows : ∀ row ∈ rows, row.length = ws.length) {fitting : Row}
    (h : Fits ws fitting ∨ fitting ∈ rows) :
    Fits (rows.foldl (fun ws row => List.zipWith (fun w cell => max w cell.length) ws row) ws)
      fitting := by
  induction rows generalizing ws with
  | nil => exact h.resolve_right List.not_mem_nil
  | cons row rows ih =>
    rw [List.forall_mem_cons] at hrows
    have hlength : (List.zipWith (fun w cell => max w cell.length) ws row).length = ws.length := by
      rw [List.length_zipWith, hrows.1, Nat.min_self]
    rw [List.foldl_cons]
    apply ih fun row hrow => (hrows.2 row hrow).trans hlength.symm
    rcases h with hfits | hmem
    · exact Or.inl (hfits.widen hrows.1)
    · refine (List.mem_cons.1 hmem).imp_left ?_
      rintro rfl
      exact fits_zipWith hrows.1

theorem fits_widths {headings : Row} {rows : List Row}
    (hrows : ∀ row ∈ rows, row.length = headings.length) {row : Row}
    (h : row ∈ headings :: rows) : Fits (widths headings rows) row := by
  have hrows' : ∀ row ∈ rows, row.length = (headings.map String.length).length := by
    simpa only [List.length_map] using hrows
  refine fits_foldl hrows' ((List.mem_cons.1 h).imp_left ?_)
  rintro rfl
  exact List.forall₂_map_left_iff.2 (List.forall₂_same.2 fun cell _ => Nat.le_refl cell.length)

theorem fits_rule (ws : List Nat) : Fits ws (rule ws) :=
  List.forall₂_map_right_iff.2 (List.forall₂_same.2 fun w _ => by simp)

/-- Where columns of those widths start if the first of them starts at `n`. -/
def columnStarts (n : Nat) : List Nat → List Nat
  | [] => []
  | w :: ws => n :: columnStarts (n + (w + 2)) ws

/-- The cells of a row in columns of those widths, each but the last with the blanks up to the
next one. -/
inductive Sliced : List Nat → Row → List Line → Prop where
  | last {w : Nat} {cell : String} (hle : cell.length ≤ w) (htight : IsTight cell)
      (hne : cell ≠ "") : Sliced [w] [cell] [cell.toList]
  | before {w : Nat} {cell : String} {ws : List Nat} {row : Row} {pieces : List Line}
      (hle : cell.length ≤ w) (htight : IsTight cell) (hrest : Sliced ws row pieces) :
      Sliced (w :: ws) (cell :: row)
        ((cell.toList ++ List.replicate (w - cell.length + 2) ' ') :: pieces)

theorem exists_sliced {ws : List Nat} {row : Row} (hfits : Fits ws row) (h : IsReadable row) :
    ∃ pieces, Sliced ws row pieces := by
  obtain ⟨htight, hne, hlast⟩ := h
  induction hfits with
  | nil => exact absurd rfl hne
  | @cons w cell ws row hle hrest ih =>
    rw [List.forall_mem_cons] at htight
    cases row with
    | nil =>
      cases hrest
      exact ⟨_, .last hle htight.1 fun hempty => hlast (congrArg some hempty)⟩
    | cons next row =>
      obtain ⟨pieces, hpieces⟩ := ih htight.2 (List.cons_ne_nil _ _) hlast
      exact ⟨_, .before hle htight.1 hpieces⟩

namespace Sliced

variable {ws : List Nat} {row : Row} {pieces : List Line}

theorem pieces_ne_nil (h : Sliced ws row pieces) : pieces ≠ [] := by
  cases h <;> exact List.cons_ne_nil _ _

theorem length_piece {w : Nat} {cell : String} (hle : cell.length ≤ w) :
    (cell.toList ++ List.replicate (w - cell.length + 2) ' ').length = w + 2 := by
  rw [List.length_append, List.length_replicate, String.length_toList]
  omega

theorem offsets_eq (h : Sliced ws row pieces) (n : Nat) :
    offsets n pieces = columnStarts n ws := by
  induction h generalizing n with
  | last => rfl
  | before hle _ _ ih => rw [offsets, columnStarts, length_piece hle, ih]

theorem reaches (h : Sliced ws row pieces) (n : Nat) :
    ∀ start ∈ columnStarts n ws, start < n + pieces.flatten.length := by
  induction h generalizing n with
  | last _ _ hne => simpa [columnStarts, List.length_pos_iff] using hne
  | @before w cell ws row pieces hle _ _ ih =>
    have hrest := ih (n + (w + 2))
    rw [columnStarts, List.forall_mem_cons, List.flatten_cons, List.length_append,
      length_piece hle, ← Nat.add_assoc n]
    exact ⟨by omega, hrest⟩

theorem filled (h : Sliced ws row pieces) :
    List.Forall₂ (fun cell piece => ∃ n, piece = cell.toList ++ List.replicate n ' ') row
      pieces := by
  induction h with
  | last => exact .cons ⟨0, (List.append_nil _).symm⟩ .nil
  | before _ _ _ ih => exact .cons ⟨_, rfl⟩ ih

theorem apart (h : Sliced ws row pieces) : ∀ piece ∈ pieces.dropLast, [' ', ' '] <:+ piece := by
  induction h with
  | last => exact List.forall_mem_nil _
  | before _ _ hrest ih =>
    rw [List.dropLast_cons_of_ne_nil hrest.pieces_ne_nil, List.forall_mem_cons]
    refine ⟨?_, ih⟩
    rw [List.replicate_add, ← List.append_assoc]
    exact List.suffix_append _ _

theorem trimmed (h : Sliced ws row pieces) : pieces.map trim = row.map String.toList := by
  induction h with
  | last _ htight _ =>
    have hcell := htight.trim_append 0
    rw [List.replicate_zero, List.append_nil] at hcell
    exact congrArg (· :: []) hcell
  | before _ htight _ ih => exact congrArg₂ (· :: ·) (htight.trim_append _) ih

theorem exists_intercalate (h : Sliced ws row pieces) : ∃ n,
    [' ', ' '].intercalate (List.zipWith (fun w cell => (padTo w cell).toList) ws row) =
      pieces.flatten ++ List.replicate n ' ' := by
  induction h with
  | @last w cell => exact ⟨w - cell.length, by simp [padTo]⟩
  | @before w cell ws row pieces _ _ hrest ih =>
    obtain ⟨n, hn⟩ := ih
    have hne : List.zipWith (fun w cell => (padTo w cell).toList) ws row ≠ [] := by
      cases hrest <;> exact List.cons_ne_nil _ _
    refine ⟨n, ?_⟩
    rw [List.zipWith_cons_cons, List.intercalate_cons_of_ne_nil hne, hn, padTo,
      String.toList_append, String.toList_ofList, List.flatten_cons, List.replicate_add]
    simp only [List.append_assoc, List.replicate_succ, List.replicate_zero]

theorem isBlank_getLast (h : Sliced ws row pieces) :
    pieces.flatten ≠ [] ∧ ∀ c ∈ pieces.flatten.getLast?, isBlank c = false := by
  induction h with
  | last _ htight hne => simpa using ⟨hne, htight.last⟩
  | before _ _ _ ih =>
    rw [List.flatten_cons, List.getLast?_append_of_ne_nil _ ih.1]
    exact ⟨List.append_ne_nil_of_right_ne_nil _ ih.1, ih.2⟩

theorem toList_rowLine (h : Sliced ws row pieces) : (rowLine ws row).toList = pieces.flatten := by
  obtain ⟨n, hn⟩ := h.exists_intercalate
  obtain ⟨hne, hlast⟩ := h.isBlank_getLast
  rw [rowLine, String.toList_ofList, hn, trimEnd, dropEndWhile_append_of_last hne hlast,
    dropEndWhile_eq_nil (isBlank_of_mem_replicate n), List.append_nil]

theorem oneLine_rowLine (h : Sliced ws row pieces) : OneLine (rowLine ws row) := by
  rw [OneLine, h.toList_rowLine]
  induction h with
  | last _ htight _ => simpa [OneLine] using htight.oneLine
  | before _ htight _ ih => simpa [show '\n' ∉ _ from htight.oneLine] using ih

theorem holdsAt_rowLine (h : Sliced ws row pieces) :
    HoldsAt (columnStarts 0 ws) row (rowLine ws row).toList := by
  have hcut : cutAt (columnStarts 0 ws) (rowLine ws row).toList = pieces := by
    rw [h.toList_rowLine, ← h.offsets_eq 0]
    exact cutAt_offsets [] pieces
  exact {
    whole := by rw [hcut, h.toList_rowLine]
    reaches := by simpa [h.toList_rowLine] using h.reaches 0
    filled := hcut ▸ h.filled
    apart := hcut ▸ h.apart
    trimmed := hcut ▸ h.trimmed }

end Sliced

theorem dashStarts_replicate (n k : Nat) (rest : Line) :
    dashStarts n true (List.replicate k '-' ++ rest) = dashStarts (n + k) true rest := by
  induction k generalizing n with
  | zero => rfl
  | succ k ih =>
    rw [List.replicate_succ, List.cons_append, dashStarts, if_pos rfl, if_pos rfl, ih]
    congr 1
    omega

theorem dashStarts_run (n : Nat) {w : Nat} (hw : 0 < w) (rest : Line) :
    dashStarts n false (List.replicate w '-' ++ rest) = n :: dashStarts (n + w) true rest := by
  obtain ⟨k, rfl⟩ := Nat.exists_eq_add_of_lt hw
  rw [Nat.zero_add, List.replicate_succ, List.cons_append, dashStarts, if_pos rfl,
    if_neg Bool.false_ne_true, dashStarts_replicate]
  congr 2
  omega

theorem dashStarts_rule {ws : List Nat} {pieces : List Line} (hws : ∀ w ∈ ws, 0 < w)
    (h : Sliced ws (rule ws) pieces) (n : Nat) :
    dashStarts n false pieces.flatten = columnStarts n ws := by
  -- The row follows the widths through the induction.
  generalize hrow : rule ws = row at h
  induction h generalizing n with
  | @last w cell =>
    obtain ⟨rfl, -⟩ := List.cons_eq_cons.1 hrow
    rw [List.flatten_singleton, String.toList_ofList]
    simpa [columnStarts, dashStarts] using dashStarts_run n (hws w List.mem_cons_self) []
  | @before w cell ws row pieces _ _ _ ih =>
    rw [List.forall_mem_cons] at hws
    obtain ⟨rfl, hrest⟩ := List.cons_eq_cons.1 hrow
    have hfull : w - (String.ofList (List.replicate w '-')).length = 0 := by simp
    rw [List.flatten_cons, String.toList_ofList, hfull, List.append_assoc,
      dashStarts_run n hws.1]
    exact congrArg (n :: ·) (ih hws.2 (n + (w + 2)) hrest)

theorem isDashes_of_mem_rule {ws : List Nat} (hws : ∀ w ∈ ws, 0 < w) :
    ∀ cell ∈ rule ws, IsDashes cell := by
  intro cell hcell
  obtain ⟨w, hw, rfl⟩ := List.mem_map.1 hcell
  have hpos := hws w hw
  constructor
  · intro hempty
    have hlength := congrArg String.length hempty
    rw [String.length_ofList, List.length_replicate, String.length_empty] at hlength
    omega
  · rw [String.toList_ofList]
    exact fun c hc => List.eq_of_mem_replicate hc

theorem isReadable_rule {ws : List Nat} (hne : ws ≠ []) (hws : ∀ w ∈ ws, 0 < w) :
    IsReadable (rule ws) where
  tight cell hcell := by
    apply isTight_of_forall
    intro c hc
    rw [(isDashes_of_mem_rule hws cell hcell).2 c hc]
    rfl
  notEmpty := by simpa [rule] using hne
  last hlast := (isDashes_of_mem_rule hws "" (List.mem_of_getLast? hlast)).1 rfl

theorem pos_of_fits {ws : List Nat} {row : Row} (h : Fits ws row) (hrow : ∀ cell ∈ row, cell ≠ "") :
    ∀ w ∈ ws, 0 < w := by
  induction h with
  | nil => exact List.forall_mem_nil _
  | cons hle _ ih =>
    rw [List.forall_mem_cons] at hrow ⊢
    exact ⟨(Nat.pos_of_ne_zero (mt String.length_eq_zero_iff.1 hrow.1)).trans_le hle, ih hrow.2⟩

section Block

variable {headings : Row} {rows : List Row} (hheadings : IsReadable headings)
  (hnamed : ∀ cell ∈ headings, cell ≠ "")
  (hrows : ∀ row ∈ rows, row.length = headings.length ∧ IsReadable row)

include hnamed hrows

theorem pos_of_mem_widths : ∀ w ∈ widths headings rows, 0 < w :=
  pos_of_fits (fits_widths (fun row hrow => (hrows row hrow).1) List.mem_cons_self) hnamed

include hheadings

theorem exists_sliced_of_mem {row : Row}
    (h : row ∈ headings :: rule (widths headings rows) :: rows) :
    ∃ pieces, Sliced (widths headings rows) row pieces := by
  have hfits {row : Row} (h : row ∈ headings :: rows) : Fits (widths headings rows) row :=
    fits_widths (fun row hrow => (hrows row hrow).1) h
  rw [List.mem_cons, List.mem_cons] at h
  rcases h with rfl | rfl | hmem
  · exact exists_sliced (hfits List.mem_cons_self) hheadings
  · have hne : widths headings rows ≠ [] := by
      intro hnil
      have hlength := (hfits List.mem_cons_self).length_eq
      rw [hnil] at hlength
      exact hheadings.notEmpty (List.length_eq_zero_iff.1 hlength.symm)
    exact exists_sliced (fits_rule _) (isReadable_rule hne (pos_of_mem_widths hnamed hrows))
  · exact exists_sliced (hfits (List.mem_cons_of_mem _ hmem)) (hrows row hmem).2

theorem oneLine_of_mem_blockLines : ∀ l ∈ blockLines headings rows, OneLine l := by
  intro l hl
  obtain ⟨row, hrow, rfl⟩ := List.mem_map.1 hl
  obtain ⟨pieces, hpieces⟩ := exists_sliced_of_mem hheadings hnamed hrows hrow
  exact hpieces.oneLine_rowLine

/-- The lines of a block hold its rows, in the columns that its dashes show. -/
theorem isBlock_blockLines :
    IsBlock headings rows ((blockLines headings rows).map String.toList) := by
  have hholds {row : Row} (h : row ∈ headings :: rule (widths headings rows) :: rows) :
      HoldsAt (columnStarts 0 (widths headings rows)) row
        (rowLine (widths headings rows) row).toList := by
    obtain ⟨pieces, hpieces⟩ := exists_sliced_of_mem hheadings hnamed hrows h
    exact hpieces.holdsAt_rowLine
  have hws := pos_of_mem_widths hnamed hrows
  obtain ⟨dashes, hdashes⟩ := exists_sliced_of_mem hheadings hnamed hrows
    (List.mem_cons_of_mem headings List.mem_cons_self)
  have hstarts : dashStarts 0 false (rowLine (widths headings rows)
      (rule (widths headings rows))).toList = columnStarts 0 (widths headings rows) := by
    rw [hdashes.toList_rowLine, dashStarts_rule hws hdashes]
  refine ⟨_, _, _, rfl, ?_, ⟨_, isDashes_of_mem_rule hws, ?_⟩, ?_⟩ <;> rw [hstarts]
  · exact hholds List.mem_cons_self
  · exact hholds (List.mem_cons_of_mem _ List.mem_cons_self)
  · rw [List.map_map, List.forall₂_map_right_iff]
    exact List.forall₂_same.2 fun row hrow =>
      hholds (List.mem_cons_of_mem _ (List.mem_cons_of_mem _ hrow))

end Block

end SchemaModels.Summary
