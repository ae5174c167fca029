import SchemaModels.Proofs.Ddl.Account
import SchemaModels.Proofs.Ddl.Clause

namespace SchemaModels.Ddl

open Text

/-- The header ends on line `k`: the pass stands in front of the block up to that line and in the
block behind it. -/
structure EntersAfter (ls : List Line) (k : Nat) : Prop where
  before : (Scan.ofLines (ls.take k)).phase ∈ [.outside, .header]
  behind : (Scan.ofLines (ls.take (k + 1))).phase = .block

theorem phase_take_eq_block_iff {ls : List Line} {k : Nat} (hk : k ≤ ls.length) :
    (Scan.ofLines (ls.take k)).phase = .block ↔ InBlock ls k := by
  obtain ⟨rows, h⟩ := reads_ofLines (ls.take k)
  have hlen : (ls.take k).length = k := List.length_take_of_le hk
  rw [← inBlock_length_iff h.fits, hlen, ← inBlock_append (ls.drop k) (Nat.le_of_eq hlen.symm),
    List.take_append_drop]

theorem exists_inBlock_of_closed {ls : List Line} {k : Nat}
    (h : (Scan.ofLines (ls.take k)).phase = .closed) : ∃ i < k, InBlock ls i := by
  obtain ⟨rows, hreads⟩ := reads_ofLines (ls.take k)
  have hfits := hreads.fits
  rw [h] at hfits
  obtain ⟨i, line, hline, hin, -⟩ := hfits
  have hi : i < (ls.take k).length := (List.getElem?_eq_some_iff.1 hline).1
  refine ⟨i, Nat.lt_of_lt_of_le hi (List.length_take_le k ls), ?_⟩
  rwa [← List.take_append_drop k ls, inBlock_append _ (Nat.le_of_lt hi)]

/-- The pass enters the block below the line that ends the header and nowhere else. -/
theorem entersAfter_iff {ls : List Line} {k : Nat} : EntersAfter ls k ↔ EndsHeader ls k := by
  constructor
  · rintro ⟨hbefore, hbehind⟩
    have hk : k < ls.length := by
      refine Nat.lt_of_not_le fun hle => ?_
      rw [List.take_of_length_le (Nat.le_succ_of_le hle)] at hbehind
      rw [List.take_of_length_le hle, hbehind] at hbefore
      simp at hbefore
    obtain ⟨h, hlt, hends, hopen⟩ := (phase_take_eq_block_iff hk).1 hbehind
    rcases Nat.lt_or_eq_of_le (Nat.le_of_lt_succ hlt) with hlt | rfl
    · -- A header that ends above would have the block open on line `k` already.
      have hin : InBlock ls k := ⟨h, hlt, hends, fun j hj hjk => hopen j hj (Nat.lt_succ_of_lt hjk)⟩
      rw [(phase_take_eq_block_iff (Nat.le_of_lt hk)).2 hin] at hbefore
      simp at hbefore
    · exact hends
  · intro h
    obtain ⟨⟨line, hline, -⟩, -⟩ := h.1
    have hk : k < ls.length := (List.getElem?_eq_some_iff.1 hline).1
    have hnone (i : Nat) (hi : i ≤ k) : ¬ InBlock ls i := by
      rintro ⟨j, hj, hends, -⟩
      exact absurd (endsHeader_unique hends h) (by omega)
    refine ⟨?_, (phase_take_eq_block_iff hk).2 ⟨k, Nat.lt_succ_self k, h, fun j _ _ => by omega⟩⟩
    cases hphase : (Scan.ofLines (ls.take k)).phase with
    | outside => simp
    | header => simp
    | block =>
      exact absurd ((phase_take_eq_block_iff (Nat.le_of_lt hk)).1 hphase) (hnone k (Nat.le_refl k))
    | closed =>
      obtain ⟨i, hi, hin⟩ := exists_inBlock_of_closed hphase
      exact absurd hin (hnone i (Nat.le_of_lt hi))

theorem EndsHeader.reads_take {ls : List Line} {k : Nat} (h : EndsHeader ls k) :
    Reads (ls.take (k + 1)) [] (.ofLines (ls.take (k + 1))) := by
  obtain ⟨rows, hreads⟩ := reads_ofLines (ls.take (k + 1))
  have hrows : rows = [] := by
    refine List.eq_nil_iff_forall_not_mem.2 fun row hrow => ?_
    have hrow' : IsRow (ls.take (k + 1)) row := (hreads.account.mem_iff row).1 hrow
    have hlen : row.1 < (ls.take (k + 1)).length := hrow'.lt_length
    obtain ⟨-, -, hin, -⟩ := hrow'
    rw [← inBlock_append (ls.drop (k + 1)) (Nat.le_of_lt hlen), List.take_append_drop] at hin
    obtain ⟨header, hlt, hends, -⟩ := hin
    have hle : row.1 < k + 1 := Nat.lt_of_lt_of_le hlen (List.length_take_le _ _)
    have heq : header = k := endsHeader_unique hends h
    omega
  exact hrows ▸ hreads

theorem exists_endsHeader {ls : List Line} {i : Nat} (h : MayEndHeader ls i) :
    ∃ e ≤ i, EndsHeader ls e := by
  induction i using Nat.strongRecOn with
  | ind i ih =>
    by_cases habove : ∃ j < i, MayEndHeader ls j
    · obtain ⟨j, hji, hj⟩ := habove
      obtain ⟨e, hej, he⟩ := ih j hji hj
      exact ⟨e, Nat.le_trans hej (Nat.le_of_lt hji), he⟩
    · exact ⟨i, Nat.le_refl i, h, fun j hji hj => habove ⟨j, hji, hj⟩⟩

/-- The header ends on a line that may end it if every other such line lies below, and nowhere if
there is none. -/
theorem endsHeader_iff_of_first {ls : List Line} {first? : Option Nat}
    (hmay : ∀ k, first? = some k → MayEndHeader ls k)
    (hreached : ∀ i, MayEndHeader ls i → ∃ k ≤ i, first? = some k) {k : Nat} :
    EndsHeader ls k ↔ first? = some k := by
  constructor
  · intro hends
    obtain ⟨k', hle, hk'⟩ := hreached k hends.1
    rcases Nat.lt_or_eq_of_le hle with hlt | rfl
    · exact absurd (hmay k' hk') (hends.2 k' hlt)
    · exact hk'
  · refine fun hk => ⟨hmay k hk, fun i hik hi => ?_⟩
    obtain ⟨k', hle, hk'⟩ := hreached i hi
    rw [hk, Option.some.injEq] at hk'
    omega

/-- The number, from zero, of the line on which a text at the end of another starts. -/
def lineAt (text back : List Char) : Nat := text.count '\n' - back.count '\n'

@[simp] theorem lineAt_append (front back : List Char) :
    lineAt (front ++ back) back = front.count '\n' := by
  simp [lineAt]

def Clause.parenLine? (text : List Char) (c : Clause) : Option Nat :=
  if '(' ∈ c.rest then some (lineAt text (c.rest.dropWhile (· != '('))) else none

def Opens (ls : List Line) (j : Nat) : Prop :=
  ∃ line, ls[j]? = some line ∧ opensStatement line = true

/-- Where a clause stands in a text: behind `front`, with `passed` up to the end of its name. -/
structure Clause.Stands (text front passed : List Char) (c : Clause) : Prop where
  text : text = front ++ passed ++ c.rest
  start : c.start = passed ++ c.rest
  noParen : '(' ∉ passed

theorem exists_stands {text : List Char} {c : Clause} (h : clause? text = some c) :
    (∃ front passed, c.Stands text front passed) ∧
      ∃ create table rest, Opening c.start create c.gap table rest := by
  obtain ⟨front, start, rfl, hc, -⟩ := search_eq_some_iff.1 h
  obtain ⟨rfl, ⟨passed, hpassed, hparen⟩, hopening⟩ := clauseAt?_eq_some hc
  refine ⟨⟨front, passed, ?_, hpassed, hparen⟩, hopening⟩
  rw [List.append_assoc, ← hpassed]

namespace Clause.Stands

variable {text front passed : List Char} {c : Clause}

theorem lineAt_start (h : c.Stands text front passed) :
    lineAt text c.start = front.count '\n' := by
  rw [h.text, List.append_assoc, ← h.start, lineAt_append]

theorem parenLine?_eq_some_iff (h : c.Stands text front passed) {k : Nat} :
    c.parenLine? text = some k ↔ ∃ mid after, c.rest = mid ++ '(' :: after ∧ '(' ∉ mid ∧
      (front ++ passed ++ mid).count '\n' = k := by
  have hline {mid after : List Char} (hrest : c.rest = mid ++ '(' :: after) (hmid : '(' ∉ mid) :
      c.parenLine? text = some ((front ++ passed ++ mid).count '\n') := by
    have hdrop : c.rest.dropWhile (· != '(') = '(' :: after := by
      rw [hrest, List.dropWhile_append_of_pos, List.dropWhile_cons_of_neg (by simp)]
      intro d hd
      exact bne_iff_ne.2 fun heq => hmid (heq ▸ hd)
    have htext : text = front ++ passed ++ mid ++ '(' :: after := by
      rw [h.text, hrest, ← List.append_assoc]
    rw [parenLine?, if_pos (by simp [hrest]), hdrop, htext, lineAt_append]
  constructor
  · intro hk
    have hmem : '(' ∈ c.rest := by
      by_contra hnone
      rw [parenLine?, if_neg hnone] at hk
      cases hk
    obtain ⟨mid, after, hrest, hmid⟩ := List.eq_append_cons_of_mem hmem
    rw [hline hrest hmid, Option.some.injEq] at hk
    exact ⟨mid, after, hrest, hmid, hk⟩
  · rintro ⟨mid, after, hrest, hmid, rfl⟩
    exact hline hrest hmid

theorem lineHolds_of_parenLine? (h : c.Stands text front passed) {k : Nat}
    (hk : c.parenLine? text = some k) :
    LineHolds (lines text) k '(' ∧ front.count '\n' ≤ k := by
  obtain ⟨mid, after, hrest, -, rfl⟩ := h.parenLine?_eq_some_iff.1 hk
  constructor
  · rw [lineHolds_iff (by decide) (by decide)]
    exact ⟨front ++ passed ++ mid, after, by rw [h.text, hrest]; simp, rfl⟩
  · simp only [List.count_append]
    omega

/-- A parenthesis stands on or above the line of the clause, or on or below that of the first one
behind the name. -/
theorem le_or_exists_of_lineHolds (h : c.Stands text front passed) {i : Nat}
    (hi : LineHolds (lines text) i '(') :
    i ≤ front.count '\n' ∨ ∃ k ≤ i, c.parenLine? text = some k := by
  obtain ⟨before, after, htext, rfl⟩ := (lineHolds_iff (by decide) (by decide)).1 hi
  rw [h.text, List.append_assoc] at htext
  rcases List.append_eq_append_iff.1 htext with ⟨more, rfl, hmore⟩ | ⟨more, rfl, -⟩
  · -- It stands behind the front, so behind the name, as no clause holds a parenthesis.
    right
    obtain ⟨skipped, rfl, hrest⟩ := exists_of_append_eq_append_cons hmore h.noParen
    obtain ⟨mid, after', hfirst, hmid⟩ :=
      List.eq_append_cons_of_mem (hrest ▸ List.mem_append_right skipped List.mem_cons_self)
    obtain ⟨between, rfl, -⟩ := exists_of_append_eq_append_cons (hfirst ▸ hrest) hmid
    refine ⟨_, ?_, h.parenLine?_eq_some_iff.2 ⟨mid, after', hfirst, hmid, rfl⟩⟩
    simp only [List.count_append]
    omega
  · left
    simp only [List.count_append]
    omega

end Clause.Stands

theorem wordEnds_of_isPrefix {cs front : List Char} (h : wordEnds cs = true) (hpre : front <+: cs) :
    wordEnds front = true := by
  cases front with
  | nil => rfl
  | cons c front =>
    obtain ⟨back, rfl⟩ := hpre
    exact h

theorem Opening.opensStatement {cs create gap table rest : List Char}
    (h : Opening cs create gap table rest) (pre : List Char) :
    opensStatement (pre ++ cs) = true := by
  have hphrase : afterPhrase "create" "table" cs = some rest :=
    (afterPhrase_eq_some_iff (by decide +kernel)).2
      ⟨create, gap, table, h.create, h.gap, h.table, h.text⟩
  apply search_isSome
  rw [hphrase, Option.filter_some, if_pos h.wordEnds]
  rfl

theorem Opening.opens {cs create gap table rest : List Char} (h : Opening cs create gap table rest)
    (hfeed : '\n' ∉ gap) (front : List Char) : Opens (lines (front ++ cs)) (front.count '\n') := by
  obtain ⟨rfl, hcreate, hgap, htable, hends⟩ := h
  obtain ⟨-, hcreateWord⟩ := isWord_of_spells (by decide +kernel) hcreate
  obtain ⟨htableNe, htableWord⟩ := isWord_of_spells (by decide +kernel) htable
  have hnoFeed : '\n' ∉ create ++ gap ++ table := by
    have hword : isWord '\n' = false := by decide
    simp only [List.mem_append, not_or]
    refine ⟨⟨fun hmem => ?_, hfeed⟩, fun hmem => ?_⟩
    · simp [hcreateWord _ hmem] at hword
    · simp [htableWord _ hmem] at hword
  -- A line drops the return in front of its feed, and none stands at the end of the words.
  have hreturn : (create ++ gap ++ table).getLast? ≠ some '\r' := by
    rw [List.getLast?_append_of_ne_nil _ htableNe]
    intro hlast
    have hword : isWord '\r' = false := by decide
    simp [htableWord _ (List.mem_of_getLast? hlast)] at hword
  obtain ⟨pre, post, hline, hpost⟩ :=
    exists_line_around front rest hnoFeed (by simp [htableNe]) hreturn
  have hopening : Opening (create ++ gap ++ table ++ post) create gap table post :=
    ⟨rfl, hcreate, hgap, htable, wordEnds_of_isPrefix hends hpost⟩
  refine ⟨pre ++ (create ++ gap ++ table ++ post), ?_, hopening.opensStatement pre⟩
  rw [← List.append_assoc front, hline, List.append_assoc pre]

theorem Clause.Stands.opens {text front passed create table rest : List Char} {c : Clause}
    (h : c.Stands text front passed) (hopening : Opening c.start create c.gap table rest)
    (hgap : '\n' ∉ c.gap) : Opens (lines text) (front.count '\n') := by
  have htext : text = front ++ c.start := by rw [h.start, ← List.append_assoc, ← h.text]
  exact htext ▸ hopening.opens hgap front

/-- The header ends on the line of the first opening parenthesis behind the name, and nowhere if
there is none, exactly if two things hold. A line up to that one holds both words of the clause, as
the line of the clause does when no line feed parts them. And from such a line to the line of the
clause no other line than that of the parenthesis holds an opening one. -/
theorem header_ends_at_paren_iff {text name : List Char} (h : tableNameChars? text = some name) :
    ∃ c, clause? text = some c ∧ c.name = name ∧
      ((∀ k, EntersAfter (lines text) k ↔ c.parenLine? text = some k) ↔
        ('\n' ∉ c.gap ∨ ∀ k, c.parenLine? text = some k → ∃ j ≤ k, Opens (lines text) j) ∧
        ∀ j i, j ≤ i → i ≤ lineAt text c.start → Opens (lines text) j →
          LineHolds (lines text) i '(' → c.parenLine? text = some i) := by
  rw [← map_name_clause?, Option.map_eq_some_iff] at h
  obtain ⟨c, hc, rfl⟩ := h
  obtain ⟨⟨front, passed, hstands⟩, create, table, rest, hopening⟩ := exists_stands hc
  refine ⟨c, hc, rfl, ?_⟩
  simp only [entersAfter_iff, hstands.lineAt_start]
  constructor
  · intro hagree
    refine ⟨.inr fun k hk => ((hagree k).2 hk).1.2, fun j i hji hi hopens hholds => ?_⟩
    obtain ⟨e, hei, he⟩ := exists_endsHeader ⟨hholds, j, hji, hopens⟩
    have hparen := (hagree e).1 he
    have hle := (hstands.lineHolds_of_parenLine? hparen).2
    rwa [show i = e by omega]
  · rintro ⟨hinTime, hfront⟩ k
    refine endsHeader_iff_of_first (fun k hk => ?_) fun i ⟨hholds, j, hji, hj⟩ => ?_
    · have ⟨hholds, hle⟩ := hstands.lineHolds_of_parenLine? hk
      refine ⟨hholds, ?_⟩
      rcases hinTime with hgap | hinTime
      · exact ⟨_, hle, hstands.opens hopening hgap⟩
      · exact hinTime k hk
    · -- A line that may end the header is the line of the parenthesis or lies below it.
      rcases hstands.le_or_exists_of_lineHolds hholds with hle | hparen
      · exact ⟨i, Nat.le_refl i, hfront j i hji hle hj hholds⟩
      · exact hparen

def parenBelow : List Char := "CREATE TABLE t\n(\n  id int\n)".toList

theorem parenBelow_header_ends : tableNameChars? parenBelow = some ['t'] ∧
    ∀ k, EntersAfter (lines parenBelow) k ↔ k = 1 := by
  have hname : tableNameChars? parenBelow = some ['t'] := by decide +kernel
  obtain ⟨c, hc, -, hiff⟩ := header_ends_at_paren_iff hname
  have hclause : clause? parenBelow = some ⟨parenBelow, ['t'], "\n(\n  id int\n)".toList⟩ := by
    decide +kernel
  rw [hclause, Option.some.injEq] at hc
  subst hc
  have hparen : (Clause.mk parenBelow ['t'] "\n(\n  id int\n)".toList).parenLine? parenBelow =
      some 1 := by decide +kernel
  have hgap : '\n' ∉ (Clause.mk parenBelow ['t'] "\n(\n  id int\n)".toList).gap := by
    decide +kernel
  have hfront : ¬ LineHolds (lines parenBelow) 0 '(' := by
    rintro ⟨line, hline, hmem⟩
    rw [show (lines parenBelow)[0]? = some "CREATE TABLE t".toList by decide +kernel] at hline
    cases hline
    revert hmem
    decide +kernel
  refine ⟨hname, fun k => ?_⟩
  rw [hiff.2 ⟨.inl hgap, fun j i _ hi _ hholds => ?_⟩ k, hparen, Option.some.injEq, eq_comm]
  rw [show lineAt parenBelow parenBelow = 0 by decide +kernel, Nat.le_zero] at hi
  exact absurd (hi ▸ hholds) hfront

def partedWords : List Char := "CREATE\nTABLE t (\n  id int\n)".toList

/-- The name is found across the line feed, and no line opens the statement. The column is lost
without a failure. -/
theorem partedWords_header_never_ends : tableNameChars? partedWords = some ['t'] ∧
    (clause? partedWords).bind (·.parenLine? partedWords) = some 1 ∧
    (∀ k, ¬ EntersAfter (lines partedWords) k) ∧
    columns partedWords = [] ∧ failures partedWords = [] := by
  have hclosed : ∀ line ∈ lines partedWords, opensStatement line = false := by decide +kernel
  refine ⟨by decide +kernel, by decide +kernel, fun k hk => ?_, by decide +kernel,
    by decide +kernel⟩
  obtain ⟨line, hmem, hopens⟩ := opener_of_mayEndHeader (entersAfter_iff.1 hk).1
  rw [hclosed line hmem] at hopens
  cases hopens

/-- A comment above the clause is taken for its header. -/
example : EntersAfter (lines "-- CREATE TABLE (old)\nCREATE TABLE t (\n  id int\n)".toList) 0 :=
  ⟨by decide +kernel, by decide +kernel⟩

end SchemaModels.Ddl
