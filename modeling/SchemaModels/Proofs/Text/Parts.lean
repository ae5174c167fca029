import Mathlib.Data.List.DropRight
import SchemaModels.Proofs.Text.Lines
import SchemaModels.Text.Keyword

namespace SchemaModels.Text

section Spans

variable {p : Char → Bool} {run back : List Char}

theorem of_mem_head?_dropWhile {cs : List Char} {c : Char} (h : c ∈ (cs.dropWhile p).head?) :
    p c = false := by
  have hhead := List.head?_dropWhile_not p cs
  rw [Option.mem_def.1 h] at hhead
  simpa using hhead

theorem takeWhile_append_eq (hrun : ∀ c ∈ run, p c = true) (hback : ∀ c ∈ back.head?, p c = false) :
    (run ++ back).takeWhile p = run := by
  rw [List.takeWhile_append_of_pos hrun]
  cases back with
  | nil => simp
  | cons c back => rw [List.takeWhile_cons_of_neg (by simp [hback c rfl]), List.append_nil]

theorem dropWhile_append_eq (hrun : ∀ c ∈ run, p c = true) (hback : ∀ c ∈ back.head?, p c = false) :
    (run ++ back).dropWhile p = back := by
  rw [List.dropWhile_append_of_pos hrun]
  cases back with
  | nil => rfl
  | cons c back => rw [List.dropWhile_cons_of_neg (by simp [hback c rfl])]

theorem bne_of_notMem {sep : Char} {front : List Char} (h : sep ∉ front) :
    ∀ c ∈ front, (c != sep) = true := by
  intro c hc
  simpa using ne_of_mem_of_not_mem hc h

end Spans

section Trim

variable (p : Char → Bool) (cs : List Char)

theorem dropEndWhile_isPrefix : dropEndWhile p cs <+: cs := List.rdropWhile_prefix p cs

theorem trimWhere_subset : trimWhere p cs ⊆ cs :=
  List.Subset.trans (dropEndWhile_isPrefix p _).subset (List.dropWhile_suffix p).subset

theorem trim_subset : trim cs ⊆ cs := trimWhere_subset isBlank cs

theorem trimWhere_trimWhere : trimWhere p (trimWhere p cs) = trimWhere p cs := by
  have hfront : (trimWhere p cs).dropWhile p = trimWhere p cs := by
    rw [List.dropWhile_eq_self_iff]
    intro hlen hp
    have hpre : trimWhere p cs <+: cs.dropWhile p := dropEndWhile_isPrefix p _
    have hlen' : 0 < (cs.dropWhile p).length := Nat.lt_of_lt_of_le hlen hpre.length_le
    rw [hpre.getElem hlen] at hp
    exact List.dropWhile_get_zero_not p cs hlen' hp
  calc trimWhere p (trimWhere p cs)
      = dropEndWhile p (trimWhere p cs) := congrArg (dropEndWhile p) hfront
    _ = trimWhere p cs := List.rdropWhile_idempotent p _

theorem trim_trim : trim (trim cs) = trim cs := trimWhere_trimWhere isBlank cs

variable {p}

theorem dropEndWhile_append_of_pos {back : List Char} (h : ∀ c ∈ back, p c = true) :
    dropEndWhile p (cs ++ back) = dropEndWhile p cs := by
  have hreverse : ∀ c ∈ back.reverse, p c = true := fun c hc => h c (List.mem_reverse.1 hc)
  rw [dropEndWhile, List.reverse_append, List.dropWhile_append_of_pos hreverse, dropEndWhile]

theorem dropEndWhile_eq_nil {cs : List Char} (h : ∀ c ∈ cs, p c = true) : dropEndWhile p cs = [] :=
  dropEndWhile_append_of_pos [] h

theorem trimWhere_append {front back : List Char} (hfront : ∀ c ∈ front, p c = true)
    (hback : ∀ c ∈ back, p c = true) : trimWhere p (front ++ cs ++ back) = trimWhere p cs := by
  rw [trimWhere, List.append_assoc, List.dropWhile_append_of_pos hfront, List.dropWhile_append]
  split
  · rename_i hnil
    rw [trimWhere, List.isEmpty_iff.1 hnil, List.dropWhile_eq_nil_iff.2 hback]
  · exact dropEndWhile_append_of_pos _ hback

theorem trim_of_blank {cs : List Char} (h : ∀ c ∈ cs, isBlank c = true) : trim cs = [] := by
  have htrim := trimWhere_append [] h (List.forall_mem_nil _)
  rwa [List.append_nil, List.append_nil] at htrim

theorem trim_dropReturn (line : List Char) : trim (dropReturn line) = trim line := by
  unfold dropReturn
  split
  · rename_i hlast
    obtain ⟨front, rfl⟩ := List.getLast?_eq_some_iff.1 hlast
    have hreturn : ∀ c ∈ ['\r'], isBlank c = true := List.forall_mem_singleton.2 (by decide)
    rw [List.dropLast_concat]
    exact (trimWhere_append front (List.forall_mem_nil _) hreturn).symm
  · rfl

end Trim

theorem dropEndWhile_append_of_last {p : Char → Bool} {core : List Char} (hne : core ≠ [])
    (hlast : ∀ c ∈ core.getLast?, p c = false) (tail : List Char) :
    dropEndWhile p (core ++ tail) = core ++ dropEndWhile p tail := by
  have hcore : core.reverse.dropWhile p = core.reverse := by
    obtain ⟨c, cs, hreverse⟩ := List.exists_cons_of_ne_nil (mt List.reverse_eq_nil_iff.1 hne)
    have hc : p c = false := hlast c (by rw [← List.head?_reverse, hreverse]; rfl)
    rw [hreverse, List.dropWhile_cons_of_neg (by simp [hc])]
  rw [dropEndWhile, List.reverse_append, List.dropWhile_append, dropEndWhile]
  split
  · rename_i hnil
    rw [hcore, List.reverse_reverse, List.isEmpty_iff.1 hnil, List.reverse_nil, List.append_nil]
  · rw [List.reverse_append, List.reverse_reverse]

theorem trimWhere_append_of_ends {p : Char → Bool} {core : List Char} (hne : core ≠ [])
    (hfirst : ∀ c ∈ core.head?, p c = false) (hlast : ∀ c ∈ core.getLast?, p c = false)
    (tail : List Char) : trimWhere p (core ++ tail) = core ++ dropEndWhile p tail := by
  have hstart : (core ++ tail).dropWhile p = core ++ tail := by
    obtain ⟨c, cs, rfl⟩ := List.exists_cons_of_ne_nil hne
    rw [List.cons_append, List.dropWhile_cons_of_neg (by simp [hfirst c rfl])]
  rw [trimWhere, hstart, dropEndWhile_append_of_last hne hlast]

theorem trimWhere_eq_self {p : Char → Bool} {cs : List Char}
    (hfirst : ∀ c ∈ cs.head?, p c = false) (hlast : ∀ c ∈ cs.getLast?, p c = false) :
    trimWhere p cs = cs := by
  by_cases hne : cs = []
  · rw [hne]
    rfl
  · have hends := trimWhere_append_of_ends hne hfirst hlast []
    rwa [List.append_nil, dropEndWhile, List.reverse_nil, List.dropWhile_nil, List.reverse_nil,
      List.append_nil] at hends

theorem exists_append_trimWhere (p : Char → Bool) (cs : List Char) :
    ∃ front back, cs = front ++ (trimWhere p cs ++ back) ∧ (∀ c ∈ front, p c = true) ∧
      ∀ c ∈ back, p c = true := by
  have hend (cs : List Char) : dropEndWhile p cs ++ cs.rtakeWhile p = cs := by
    rw [dropEndWhile, List.rtakeWhile, ← List.reverse_append, List.takeWhile_append_dropWhile,
      List.reverse_reverse]
  refine ⟨cs.takeWhile p, (cs.dropWhile p).rtakeWhile p, ?_, fun c hc => List.mem_takeWhile_imp hc,
    fun c hc => List.mem_rtakeWhile_imp hc⟩
  rw [trimWhere, hend, List.takeWhile_append_dropWhile]

theorem of_mem_splitWhere {p : Char → Bool} {cs piece : List Char} (h : piece ∈ splitWhere p cs) :
    piece ⊆ cs ∧ ∀ c ∈ piece, p c = false := by
  induction cs generalizing piece with
  | nil => simp_all [splitWhere]
  | cons c cs ih =>
    rw [splitWhere] at h
    split at h
    · rcases List.mem_cons.1 h with rfl | hmem
      · simp
      · exact ⟨List.Subset.trans (ih hmem).1 (List.subset_cons_self c cs), (ih hmem).2⟩
    · rename_i hc
      split at h
      · rename_i hnil
        exact absurd hnil (splitWhere_ne_nil p cs)
      · rename_i front rest hsplit
        rw [hsplit] at ih
        rcases List.mem_cons.1 h with rfl | hmem
        · obtain ⟨hsub, hclass⟩ := ih List.mem_cons_self
          exact ⟨List.cons_subset_cons c hsub, List.forall_mem_cons.2 ⟨by simpa using hc, hclass⟩⟩
        · obtain ⟨hsub, hclass⟩ := ih (List.mem_cons_of_mem front hmem)
          exact ⟨List.Subset.trans hsub (List.subset_cons_self c cs), hclass⟩

theorem notMem_of_mem_splitOn {sep : Char} {cs piece : List Char} (h : piece ∈ splitOn sep cs) :
    sep ∉ piece := by
  intro hmem
  simpa using (of_mem_splitWhere h).2 sep hmem

theorem splitOn_intercalate {sep : Char} {pieces : List (List Char)} (hne : pieces ≠ [])
    (h : ∀ piece ∈ pieces, sep ∉ piece) : splitOn sep ([sep].intercalate pieces) = pieces := by
  induction pieces with
  | nil => exact absurd rfl hne
  | cons piece pieces ih =>
    rw [List.forall_mem_cons] at h
    cases pieces with
    | nil => simpa [List.intercalate] using splitOn_of_notMem h.1
    | cons next pieces =>
      rw [List.intercalate_cons_cons, List.append_assoc, List.singleton_append,
        splitOn_append_cons, splitOn_of_notMem h.1, ih (List.cons_ne_nil _ _) h.2]
      rfl

theorem intercalate_splitOn (sep : Char) (cs : List Char) :
    [sep].intercalate (splitOn sep cs) = cs := by
  induction cs with
  | nil => rfl
  | cons c cs ih =>
    obtain ⟨piece, pieces, hsplit⟩ := List.exists_cons_of_ne_nil (splitWhere_ne_nil (· == sep) cs)
    rw [splitOn, hsplit] at ih
    rw [splitOn, splitWhere, hsplit]
    split
    · rename_i hc
      rw [List.intercalate_cons_cons, ih, beq_iff_eq.1 hc]
      rfl
    · cases pieces with
      | nil => simpa [List.intercalate] using ih
      | cons next pieces =>
        rw [List.intercalate_cons_cons] at ih ⊢
        exact congrArg (c :: ·) ih

theorem exists_intercalate_cons (sep : Char) (piece : List Char) (pieces : List (List Char)) :
    ∃ between ⊆ [sep], [sep].intercalate (piece :: pieces) =
      piece ++ (between ++ [sep].intercalate pieces) := by
  cases pieces with
  | nil => exact ⟨[], List.nil_subset _, by simp [List.intercalate]⟩
  | cons next pieces => exact ⟨[sep], List.Subset.refl _, by rw [List.intercalate_cons_cons]; simp⟩

theorem mem_of_mem_intercalate {sep c : Char} {pieces : List (List Char)}
    (h : c ∈ [sep].intercalate pieces) : c = sep ∨ ∃ piece ∈ pieces, c ∈ piece := by
  induction pieces with
  | nil => cases h
  | cons piece pieces ih =>
    obtain ⟨between, hbetween, htext⟩ := exists_intercalate_cons sep piece pieces
    rw [htext, List.mem_append, List.mem_append] at h
    rcases h with h | h | h
    · exact Or.inr ⟨piece, List.mem_cons_self, h⟩
    · exact Or.inl (List.mem_singleton.1 (hbetween h))
    · exact (ih h).imp_right fun ⟨p, hp, hc⟩ => ⟨p, List.mem_cons_of_mem piece hp, hc⟩

theorem feed_notMem_of_mem_lines {text line : List Char} (h : line ∈ lines text) :
    '\n' ∉ line := by
  obtain ⟨i, hi⟩ := List.mem_iff_getElem?.1 h
  exact (exists_append_of_getElem?_lines hi).1

theorem of_mem_nextRun {p : Char → Bool} {cs : List Char} {c : Char} (h : c ∈ (nextRun p cs).1) :
    p c = true := List.mem_takeWhile_imp h

theorem nextRun_nil (p : Char → Bool) : nextRun p [] = ([], []) := rfl

theorem dropWhile_eq_nil_of_nextRun {p : Char → Bool} {cs : List Char}
    (h : (nextRun p cs).1 = []) : cs.dropWhile (!p ·) = [] := by
  cases hdrop : cs.dropWhile (!p ·) with
  | nil => rfl
  | cons c rest =>
    have hhead := List.head?_dropWhile_not (!p ·) cs
    rw [hdrop] at hhead
    rw [nextRun, hdrop, List.takeWhile_cons_of_pos (by simpa using hhead)] at h
    cases h

theorem nextRun_snd_eq_nil {p : Char → Bool} {cs : List Char} (h : (nextRun p cs).1 = []) :
    (nextRun p cs).2 = [] := by
  rw [nextRun, dropWhile_eq_nil_of_nextRun h, List.dropWhile_nil]

theorem nextRun_cons_fst_ne_nil {p : Char → Bool} {c : Char} (hc : p c = true) (cs : List Char) :
    (nextRun p (c :: cs)).1 ≠ [] := by
  simp [nextRun, hc]

theorem nextRun_append {p : Char → Bool} {front run back : List Char}
    (hfront : ∀ c ∈ front, p c = false) (hrun : ∀ c ∈ run, p c = true) (hne : run ≠ [])
    (hback : ∀ c ∈ back.head?, p c = false) : nextRun p (front ++ (run ++ back)) = (run, back) := by
  have hstart : (front ++ (run ++ back)).dropWhile (!p ·) = run ++ back := by
    refine dropWhile_append_eq (by simpa using hfront) fun c hc => ?_
    rw [List.head?_append_of_ne_nil run hne] at hc
    simpa using hrun c (List.mem_of_mem_head? hc)
  rw [nextRun, hstart, takeWhile_append_eq hrun hback, dropWhile_append_eq hrun hback]

theorem exists_append_nextRun (p : Char → Bool) (cs : List Char) :
    ∃ front, cs = front ++ ((nextRun p cs).1 ++ (nextRun p cs).2) ∧ (∀ c ∈ front, p c = false) ∧
      (∀ c ∈ (nextRun p cs).1, p c = true) ∧ ∀ c ∈ (nextRun p cs).2.head?, p c = false := by
  refine ⟨cs.takeWhile (!p ·), ?_, ?_, fun c hc => of_mem_nextRun hc, ?_⟩
  · rw [nextRun, List.takeWhile_append_dropWhile, List.takeWhile_append_dropWhile]
  · intro c hc
    simpa using List.mem_takeWhile_imp hc
  · exact fun c hc => of_mem_head?_dropWhile hc

theorem forall_of_nextRun_eq_nil {p : Char → Bool} {cs : List Char} (h : (nextRun p cs).1 = []) :
    ∀ c ∈ cs, p c = false := by
  intro c hc
  simpa using List.dropWhile_eq_nil_iff.1 (dropWhile_eq_nil_of_nextRun h) c hc

theorem afterLetters_suffix {ks cs rest : List Char} (h : afterLetters ks cs = some rest) :
    rest <:+ cs := by
  fun_induction afterLetters ks cs with
  | case1 cs => cases h; exact List.suffix_rfl
  | case2 k ks c cs _ ih => exact (ih h).trans (List.suffix_cons c cs)
  | case3 => cases h
  | case4 => cases h

theorem afterBlanks_suffix {cs rest : List Char} (h : afterBlanks cs = some rest) :
    rest <:+ cs := by
  cases cs with
  | nil => cases h
  | cons c cs =>
    rw [afterBlanks] at h
    split at h
    · cases h
      exact (List.dropWhile_suffix isBlank).trans (List.suffix_cons c cs)
    · cases h

theorem exists_of_searchBoundary_eq_some {α : Type} {f : List Char → Option α} {inWord : Bool}
    {cs : List Char} {a : α} (h : searchBoundary f inWord cs = some a) :
    ∃ start, start <:+ cs ∧ f start = some a := by
  induction cs generalizing inWord with
  | nil => cases h
  | cons c cs ih =>
    rw [searchBoundary, Option.orElse_eq_orElse, Option.orElse_eq_or, Option.or_eq_some_iff] at h
    rcases h with h | ⟨-, h⟩
    · split at h
      · exact ⟨c :: cs, List.suffix_rfl, h⟩
      · cases h
    · obtain ⟨start, hsuffix, hf⟩ := ih h
      exact ⟨start, hsuffix.trans (List.suffix_cons c cs), hf⟩

/-- What holds at every code of a range holds of the characters with these codes. -/
theorem of_codes {P : Char → Prop} {first bound : Nat}
    (h : ∀ n < bound, first ≤ n → P (Char.ofNat n)) {c : Char} (hfirst : first ≤ c.toNat)
    (hbound : c.toNat < bound) : P c := by
  have hcode := h c.toNat hbound hfirst
  rwa [Char.ofNat_toNat] at hcode

theorem of_isAscii {P : Char → Prop} (h : ∀ n < 0x80, P (Char.ofNat n)) {c : Char}
    (hc : isAscii c = true) : P c :=
  of_codes (fun n hn _ => h n hn) (Nat.zero_le _) (by simpa [isAscii] using hc)

theorem isUpper_iff {c : Char} : c.isUpper = true ↔ 65 ≤ c.toNat ∧ c.toNat ≤ 90 := by
  change decide ('A'.val ≤ c.val ∧ c.val ≤ 'Z'.val) = true ↔ _
  rw [decide_eq_true_eq, UInt32.le_iff_toNat_le, UInt32.le_iff_toNat_le]
  rfl

theorem isLower_iff {c : Char} : c.isLower = true ↔ 97 ≤ c.toNat ∧ c.toNat ≤ 122 := by
  change (decide ('a'.val ≤ c.val) && decide (c.val ≤ 'z'.val)) = true ↔ _
  rw [Bool.and_eq_true, decide_eq_true_eq, decide_eq_true_eq, UInt32.le_iff_toNat_le,
    UInt32.le_iff_toNat_le]
  rfl

theorem isAlpha_iff {c : Char} : c.isAlpha = true ↔ c.isUpper = true ∨ c.isLower = true :=
  Iff.of_eq (Bool.or_eq_true c.isUpper c.isLower)

theorem isWord_of_isAlpha {c : Char} (h : c.isAlpha = true) : isWord c = true := by
  have hc : isAscii c = true := by
    rw [isAlpha_iff, isUpper_iff, isLower_iff] at h
    rw [isAscii, decide_eq_true_eq]
    omega
  simp [isWord, hc, Char.isAlphanum, h]

/-- What counts as a letter of a keyword is a character of words. -/
theorem isWord_of_folds {letter c : Char} (hletter : letter.isAlpha = true)
    (h : folds letter c = true) : isWord c = true := by
  rw [folds, Bool.or_eq_true, Bool.or_eq_true] at h
  rcases h with (h | h) | h
  · apply isWord_of_isAlpha
    have hlower : c.toLower = letter := eq_of_beq h
    unfold Char.toLower at hlower
    split at hlower
    · rename_i hupper
      exact isAlpha_iff.2 (.inl (decide_eq_true hupper))
    · rw [hlower, hletter]
  · rw [eq_of_beq (Bool.and_eq_true_iff.1 h).2]
    decide +kernel
  · rw [eq_of_beq (Bool.and_eq_true_iff.1 h).2]
    decide +kernel

theorem nextRun_ne_nil_of_afterKeyword {keyword : String} {cs rest : List Char}
    (hkeyword : keyword.toList.head?.any Char.isAlpha = true)
    (h : afterKeyword keyword cs = some rest) : (nextRun isWord cs).1 ≠ [] := by
  obtain ⟨k, hk, halpha⟩ := (Option.any_eq_true _ _).1 hkeyword
  obtain ⟨ks, hletters⟩ := List.head?_eq_some_iff.1 hk
  rw [afterKeyword, hletters] at h
  cases cs with
  | nil => cases h
  | cons c cs =>
    rw [afterLetters] at h
    split at h
    · rename_i hfolds
      exact nextRun_cons_fst_ne_nil (isWord_of_folds halpha hfolds) cs
    · cases h

theorem nextRun_ne_nil_of_afterPhrase {first second : String} {cs rest : List Char}
    (hfirst : first.toList.head?.any Char.isAlpha = true)
    (h : afterPhrase first second cs = some rest) : (nextRun isWord cs).1 ≠ [] := by
  simp only [afterPhrase, Option.bind_eq_bind, Option.bind_eq_some_iff] at h
  obtain ⟨mid, hmid, -⟩ := h
  exact nextRun_ne_nil_of_afterKeyword hfirst hmid

end SchemaModels.Text
