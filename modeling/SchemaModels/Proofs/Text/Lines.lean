import Mathlib.Data.List.Basic
import SchemaModels.Text.Split

namespace SchemaModels.Text

theorem splitWhere_append_cons (p : Char → Bool) (as bs : List Char) {c : Char} (hc : p c = true) :
    splitWhere p (as ++ c :: bs) = splitWhere p as ++ splitWhere p bs := by
  induction as with
  | nil => simp [splitWhere, hc]
  | cons a as ih =>
    by_cases ha : p a = true
    · simp [splitWhere, ha, ih]
    · obtain ⟨piece, pieces, h⟩ := List.exists_cons_of_ne_nil (splitWhere_ne_nil p as)
      simp [splitWhere, ha, ih, h]

theorem splitWhere_of_forall_not {p : Char → Bool} {cs : List Char} (h : ∀ c ∈ cs, p c = false) :
    splitWhere p cs = [cs] := by
  induction cs with
  | nil => rfl
  | cons c cs ih =>
    rw [List.forall_mem_cons] at h
    simp [splitWhere, h.1, ih h.2]

theorem splitOn_append_cons (sep : Char) (as bs : List Char) :
    splitOn sep (as ++ sep :: bs) = splitOn sep as ++ splitOn sep bs :=
  splitWhere_append_cons (· == sep) as bs (beq_self_eq_true sep)

theorem splitOn_of_notMem {sep : Char} {cs : List Char} (h : sep ∉ cs) : splitOn sep cs = [cs] :=
  splitWhere_of_forall_not fun _ hc => beq_eq_false_iff_ne.2 (ne_of_mem_of_not_mem hc h)

theorem dropReturn_isPrefix (line : List Char) : dropReturn line <+: line := by
  unfold dropReturn
  split
  · exact List.dropLast_prefix line
  · exact List.prefix_rfl

theorem dropReturn_append {front : List Char} (h : front.getLast? ≠ some '\r')
    (back : List Char) : dropReturn (front ++ back) = front ++ dropReturn back := by
  by_cases hnil : back = []
  · rw [hnil, List.append_nil, dropReturn, if_neg h]
    exact (List.append_nil front).symm
  · unfold dropReturn
    rw [List.getLast?_append_of_ne_nil front hnil]
    split
    · exact List.dropLast_append_of_ne_nil hnil
    · rfl

theorem lines_append_feed {line : List Char} (h : '\n' ∉ line) (rest : List Char) :
    lines (line ++ '\n' :: rest) = dropReturn line :: lines rest := by
  have hne : splitOn '\n' rest ≠ [] := splitWhere_ne_nil _ rest
  have hsplit : splitOn '\n' (line ++ '\n' :: rest) = line :: splitOn '\n' rest := by
    rw [splitOn_append_cons, splitOn_of_notMem h]
    rfl
  rw [lines, hsplit, lines, List.dropLast_cons_of_ne_nil hne, List.getLast?_cons_of_ne_nil hne]
  rfl

theorem lines_of_notMem {text : List Char} (h : '\n' ∉ text) :
    lines text = if text = [] then [] else [text] := by
  rw [lines, splitOn_of_notMem h]
  cases text <;> rfl

/-- A text is without line feed, or it is such a text in front of a line feed and another text. -/
@[elab_as_elim]
theorem linesInduction {motive : List Char → Prop}
    (last : ∀ text, '\n' ∉ text → motive text)
    (feed : ∀ line rest, '\n' ∉ line → motive rest → motive (line ++ '\n' :: rest))
    (text : List Char) : motive text := by
  induction hlen : text.length using Nat.strongRecOn generalizing text with
  | ind n ih =>
    by_cases h : '\n' ∈ text
    · obtain ⟨line, rest, rfl, hline⟩ := List.eq_append_cons_of_mem h
      refine feed line rest hline (ih rest.length ?_ rest rfl)
      simp only [List.length_append, List.length_cons] at hlen
      omega
    · exact last text h

/-- Lines that line feeds end stay as they are whatever comes after them. -/
theorem lines_append_of_feed (text rest : List Char) (h : text.getLast? = some '\n') :
    lines (text ++ rest) = lines text ++ lines rest := by
  induction text using linesInduction with
  | last text hfeed => exact absurd (List.mem_of_getLast? h) hfeed
  | feed line text hline ih =>
    rw [List.append_assoc, List.cons_append, lines_append_feed hline, lines_append_feed hline,
      List.cons_append]
    by_cases hnil : text = []
    · subst hnil
      rfl
    · rw [List.getLast?_append_of_ne_nil line (List.cons_ne_nil '\n' text),
        List.getLast?_cons_of_ne_nil hnil] at h
      rw [ih h]

/-- A text in front of another ends some lines, as many as it has line feeds, and leaves the start
of the next. -/
theorem exists_lines_append (front : List Char) : ∃ above last,
    (∀ line ∈ above, line ⊆ front) ∧ last ⊆ front ∧ '\n' ∉ last ∧
      above.length = front.count '\n' ∧
      ∀ back, lines (front ++ back) = above ++ lines (last ++ back) := by
  induction front using linesInduction with
  | last front hfeed =>
    exact ⟨[], front, by simp, List.Subset.refl front, hfeed, (List.count_eq_zero.2 hfeed).symm,
      fun back => rfl⟩
  | feed line rest hline ih =>
    obtain ⟨above, last, habove, hlast, hfeed, hlen, hlines⟩ := ih
    have hrest : rest ⊆ line ++ '\n' :: rest :=
      List.subset_append_of_subset_right line (List.subset_cons_self '\n' rest)
    refine ⟨dropReturn line :: above, last, ?_, List.Subset.trans hlast hrest, hfeed, ?_,
      fun back => ?_⟩
    · rw [List.forall_mem_cons]
      exact ⟨List.subset_append_of_subset_left _ (dropReturn_isPrefix line).subset,
        fun l hl => List.Subset.trans (habove l hl) hrest⟩
    · rw [List.length_cons, hlen, List.count_append, List.count_eq_zero.2 hline,
        List.count_cons_self, Nat.zero_add]
    · rw [List.append_assoc, List.cons_append, lines_append_feed hline, hlines, List.cons_append]

theorem exists_line_around {part : List Char} (front back : List Char) (hfeed : '\n' ∉ part)
    (hne : part ≠ []) (hreturn : part.getLast? ≠ some '\r') :
    ∃ pre post, (lines (front ++ part ++ back))[front.count '\n']? = some (pre ++ part ++ post) ∧
      post <+: back := by
  obtain ⟨above, last, -, -, hlast, hlen, hlines⟩ := exists_lines_append front
  have hstart : '\n' ∉ last ++ part := by simp [hlast, hfeed]
  have hend : (last ++ part).getLast? ≠ some '\r' := by
    rwa [List.getLast?_append_of_ne_nil last hne]
  rw [List.append_assoc, hlines, ← hlen, List.getElem?_append_right (Nat.le_refl _), Nat.sub_self,
    ← List.append_assoc]
  by_cases hback : '\n' ∈ back
  · obtain ⟨line, rest, rfl, hline⟩ := List.eq_append_cons_of_mem hback
    have hfeed' : '\n' ∉ last ++ part ++ line := by
      rw [List.mem_append, not_or]
      exact ⟨hstart, hline⟩
    refine ⟨last, dropReturn line, ?_, (dropReturn_isPrefix line).trans (List.prefix_append _ _)⟩
    rw [← List.append_assoc, lines_append_feed hfeed', List.getElem?_cons_zero,
      dropReturn_append hend]
  · have hnone : '\n' ∉ last ++ part ++ back := by
      rw [List.mem_append, not_or]
      exact ⟨hstart, hback⟩
    refine ⟨last, back, ?_, List.prefix_rfl⟩
    rw [lines_of_notMem hnone, if_neg (by simp [hne]), List.getElem?_cons_zero]

theorem exists_append_of_getElem?_lines {text line : List Char} {i : Nat}
    (h : (lines text)[i]? = some line) :
    '\n' ∉ line ∧ ∃ front back, text = front ++ line ++ back ∧ front.count '\n' = i := by
  induction text using linesInduction generalizing i with
  | last text hfeed =>
    rw [lines_of_notMem hfeed] at h
    split at h
    · cases h
    · rw [List.getElem?_singleton, Option.ite_none_right_eq_some, Option.some.injEq] at h
      obtain ⟨rfl, rfl⟩ := h
      exact ⟨hfeed, [], [], by simp, rfl⟩
  | feed first rest hfirst ih =>
    rw [lines_append_feed hfirst] at h
    cases i with
    | zero =>
      obtain ⟨dropped, hdropped⟩ := dropReturn_isPrefix first
      rw [List.getElem?_cons_zero, Option.some.injEq] at h
      subst h
      refine ⟨fun hmem => hfirst ((dropReturn_isPrefix first).subset hmem), [],
        dropped ++ '\n' :: rest, ?_, rfl⟩
      rw [List.nil_append, ← List.append_assoc, hdropped]
    | succ i =>
      rw [List.getElem?_cons_succ] at h
      obtain ⟨hfeed, front, back, rfl, hcount⟩ := ih h
      refine ⟨hfeed, first ++ '\n' :: front, back, by simp, ?_⟩
      rw [List.count_append, List.count_eq_zero.2 hfirst, List.count_cons_self, hcount,
        Nat.zero_add]

theorem exists_of_append_eq_append_cons {α : Type} {front rest before after : List α} {x : α}
    (h : front ++ rest = before ++ x :: after) (hx : x ∉ front) :
    ∃ mid, before = front ++ mid ∧ rest = mid ++ x :: after := by
  rcases List.append_eq_append_iff.1 h with ⟨mid, hbefore, hrest⟩ | ⟨mid, hfront, hmid⟩
  · exact ⟨mid, hbefore, hrest⟩
  · cases mid with
    | nil => exact ⟨[], by simpa using hfront.symm, hmid.symm⟩
    | cons y mid =>
      obtain ⟨rfl, -⟩ := List.cons_eq_cons.1 hmid
      exact absurd (hfront ▸ List.mem_append_right before List.mem_cons_self) hx

/-- Line `i` holds the character. -/
def LineHolds (ls : List (List Char)) (i : Nat) (c : Char) : Prop :=
  ∃ line, ls[i]? = some line ∧ c ∈ line

theorem lineHolds_iff {text : List Char} {i : Nat} {c : Char} (hfeed : c ≠ '\n')
    (hreturn : c ≠ '\r') :
    LineHolds (lines text) i c ↔
      ∃ front back, text = front ++ c :: back ∧ front.count '\n' = i := by
  constructor
  · rintro ⟨line, hget, hmem⟩
    obtain ⟨hline, front, back, rfl, rfl⟩ := exists_append_of_getElem?_lines hget
    obtain ⟨pre, post, rfl⟩ := List.append_of_mem hmem
    refine ⟨front ++ pre, post ++ back, by simp, ?_⟩
    have hpre : '\n' ∉ pre := fun h => hline (List.mem_append_left _ h)
    rw [List.count_append, List.count_eq_zero.2 hpre, Nat.add_zero]
  · rintro ⟨front, back, rfl, rfl⟩
    have hfeed' : '\n' ∉ [c] := by simpa using hfeed.symm
    have hreturn' : [c].getLast? ≠ some '\r' := by simpa using hreturn
    obtain ⟨pre, post, hget, -⟩ :=
      exists_line_around front back hfeed' (List.cons_ne_nil c []) hreturn'
    refine ⟨pre ++ [c] ++ post, ?_, by simp⟩
    rwa [List.append_assoc, List.singleton_append] at hget

end SchemaModels.Text
