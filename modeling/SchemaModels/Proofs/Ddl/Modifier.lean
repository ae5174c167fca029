import SchemaModels.Proofs.Ddl.ColumnLine
import SchemaModels.Proofs.Kind.Spelling

namespace SchemaModels.Ddl

open Text

/-- The second word of a text, and what stands behind it. -/
def IsSecondWord (text raw rest : List Char) : Prop :=
  ∃ front name between, text = front ++ (name ++ (between ++ (raw ++ rest))) ∧
    (∀ c ∈ front, isWord c = false) ∧ IsWholeWord name (between ++ (raw ++ rest)) ∧
    (∀ c ∈ between, isWord c = false) ∧ IsWholeWord raw rest

theorem isSecondWord_iff {text raw rest : List Char} :
    IsSecondWord text raw rest ↔
      raw ≠ [] ∧ nextRun isWord (nextRun isWord text).2 = (raw, rest) := by
  constructor
  · rintro ⟨front, name, between, rfl, hfront, hname, hbetween, hraw⟩
    rw [hname.nextRun_eq hfront]
    exact ⟨hraw.notEmpty, hraw.nextRun_eq hbetween⟩
  · rintro ⟨hne, hsecond⟩
    obtain ⟨between, hrest, hbetween, hraw⟩ := exists_of_nextRun hsecond hne
    cases hfirst : nextRun isWord text with
    | mk name behind =>
      rw [hfirst] at hrest hsecond
      have hname : name ≠ [] := by
        rintro rfl
        have hnil : (nextRun isWord text).1 = [] → (nextRun isWord text).2 = [] :=
          nextRun_snd_eq_nil
        have hbehind : behind = [] := by
          rw [hfirst] at hnil
          exact hnil rfl
        rw [hbehind, nextRun_nil, Prod.mk.injEq] at hsecond
        exact hne hsecond.1.symm
      obtain ⟨front, rfl, hfront, hword⟩ := exists_of_nextRun hfirst hname
      dsimp only at hrest
      subst hrest
      exact ⟨front, name, between, rfl, hfront, hword, hbetween, hraw⟩

def IsGroup (group : List Char) : Prop := ∃ inside, group = '(' :: (inside ++ [')']) ∧ ')' ∉ inside

/-- The word for a type without sign follows, behind blanks with at most one group in them. -/
def UnsignedNext (cs : List Char) : Prop :=
  ∃ space group space' word rest, cs = space ++ (group ++ (space' ++ (word ++ rest))) ∧
    (∀ c ∈ space, isBlank c = true) ∧ (group = [] ∨ IsGroup group) ∧
    (∀ c ∈ space', isBlank c = true) ∧ Spells "unsigned" word ∧ wordEnds rest = true

theorem afterGroup_eq_some_iff {cs rest : List Char} :
    afterGroup cs = some rest ↔ ∃ group, IsGroup group ∧ cs = group ++ rest := by
  constructor
  · intro h
    unfold afterGroup at h
    split at h
    · rename_i opened
      split at h
      · cases h
      · rename_i c after hdrop
        cases h
        have hclose : c ∈ (opened.dropWhile (· != ')')).head? := by
          rw [hdrop]
          rfl
        obtain rfl : c = ')' := by simpa using of_mem_head?_dropWhile hclose
        refine ⟨'(' :: (opened.takeWhile (· != ')') ++ [')']), ⟨_, rfl, fun hmem => ?_⟩, ?_⟩
        · simpa using List.mem_takeWhile_imp hmem
        · rw [List.cons_append, List.append_assoc, List.singleton_append, ← hdrop,
            List.takeWhile_append_dropWhile]
    · cases h
  · rintro ⟨_, ⟨inside, rfl, hinside⟩, rfl⟩
    rw [List.cons_append, List.append_assoc, afterGroup,
      dropWhile_append_eq (bne_of_notMem hinside) (by simp)]
    rfl

def skipGroup (cs : List Char) : List Char :=
  ((afterGroup (cs.dropWhile isBlank)).getD (cs.dropWhile isBlank)).dropWhile isBlank

theorem unsignedFollows_eq (cs : List Char) :
    unsignedFollows cs = (afterKeyword "unsigned" (skipGroup cs)).any wordEnds := rfl

theorem exists_skipGroup (cs : List Char) : ∃ space group space',
    cs = space ++ (group ++ (space' ++ skipGroup cs)) ∧ (∀ c ∈ space, isBlank c = true) ∧
    (group = [] ∨ IsGroup group) ∧ ∀ c ∈ space', isBlank c = true := by
  have hblank (cs : List Char) : ∀ c ∈ cs.takeWhile isBlank, isBlank c = true :=
    fun c hc => List.mem_takeWhile_imp hc
  unfold skipGroup
  cases hgroup : afterGroup (cs.dropWhile isBlank) with
  | none =>
    refine ⟨cs.takeWhile isBlank, [], (cs.dropWhile isBlank).takeWhile isBlank, ?_, hblank cs,
      .inl rfl, hblank _⟩
    rw [Option.getD_none, List.nil_append, List.takeWhile_append_dropWhile,
      List.takeWhile_append_dropWhile]
  | some after =>
    obtain ⟨group, hisGroup, hafter⟩ := afterGroup_eq_some_iff.1 hgroup
    refine ⟨cs.takeWhile isBlank, group, after.takeWhile isBlank, ?_, hblank cs, .inr hisGroup,
      hblank _⟩
    rw [Option.getD_some, List.takeWhile_append_dropWhile, ← hafter,
      List.takeWhile_append_dropWhile]

theorem skipGroup_append {space group space' rest : List Char}
    (hspace : ∀ c ∈ space, isBlank c = true) (hgroup : group = [] ∨ IsGroup group)
    (hspace' : ∀ c ∈ space', isBlank c = true)
    (hrest : ∀ c ∈ rest.head?, isBlank c = false ∧ c ≠ '(') :
    skipGroup (space ++ (group ++ (space' ++ rest))) = rest := by
  have hblank : ∀ c ∈ rest.head?, isBlank c = false := fun c hc => (hrest c hc).1
  unfold skipGroup
  rcases hgroup with rfl | hgroup
  · have hall : ∀ c ∈ space ++ space', isBlank c = true := by
      simpa [or_imp, forall_and] using And.intro hspace hspace'
    have hnone : afterGroup rest = none := by
      rw [Option.eq_none_iff_forall_ne_some]
      intro after hafter
      obtain ⟨_, ⟨inside, rfl, -⟩, rfl⟩ := afterGroup_eq_some_iff.1 hafter
      exact (hrest '(' rfl).2 rfl
    rw [List.nil_append, ← List.append_assoc, dropWhile_append_eq hall hblank, hnone,
      Option.getD_none]
    exact dropWhile_append_eq (List.forall_mem_nil _) hblank
  · obtain ⟨inside, hinside, -⟩ := id hgroup
    have hopen : ∀ c ∈ (group ++ (space' ++ rest)).head?, isBlank c = false := by
      rw [hinside]
      rintro c ⟨rfl⟩
      decide
    have hsome : afterGroup (group ++ (space' ++ rest)) = some (space' ++ rest) :=
      afterGroup_eq_some_iff.2 ⟨group, hgroup, rfl⟩
    rw [dropWhile_append_eq hspace hopen, hsome, Option.getD_some]
    exact dropWhile_append_eq hspace' hblank

theorem skipGroup_append_word {space group space' word rest : List Char}
    (hspace : ∀ c ∈ space, isBlank c = true) (hgroup : group = [] ∨ IsGroup group)
    (hspace' : ∀ c ∈ space', isBlank c = true) (hword : IsWholeWord word rest) :
    skipGroup (space ++ (group ++ (space' ++ (word ++ rest)))) = word ++ rest := by
  refine skipGroup_append hspace hgroup hspace' fun c hc => ?_
  have hclass := isWord_head_append hword.notEmpty hword.isWord rest c hc
  refine ⟨isBlank_of_isWord hclass, ?_⟩
  rintro rfl
  exact absurd hclass (by decide)

theorem unsignedFollows_iff {cs : List Char} : unsignedFollows cs = true ↔ UnsignedNext cs := by
  rw [unsignedFollows_eq, Option.any_eq_true]
  constructor
  · rintro ⟨rest, hrest, hends⟩
    obtain ⟨word, hword, hskip⟩ := afterKeyword_eq_some_iff.1 hrest
    obtain ⟨space, group, space', hcs, hspace, hgroup, hspace'⟩ := exists_skipGroup cs
    rw [hskip] at hcs
    exact ⟨space, group, space', word, rest, hcs, hspace, hgroup, hspace', hword, hends⟩
  · rintro ⟨space, group, space', word, rest, rfl, hspace, hgroup, hspace', hword, hends⟩
    have hwhole : IsWholeWord word rest := hword.isWholeWord (by decide +kernel) hends
    rw [skipGroup_append_word hspace hgroup hspace' hwhole]
    exact ⟨rest, afterKeyword_eq_some_iff.2 ⟨word, hword, rfl⟩, hends⟩

instance (cs : List Char) : Decidable (UnsignedNext cs) := decidable_of_iff _ unsignedFollows_iff

theorem exists_columnText (line : List Char) : ∃ front back,
    line = front ++ (columnText line ++ back) ∧ (∀ c ∈ front, isBlank c = true ∨ c = ',') ∧
      ∀ c ∈ back, isBlank c = true ∨ c = ',' := by
  obtain ⟨commas, commas', hline, hcommas, hcommas'⟩ := exists_append_trimWhere (· == ',') line
  obtain ⟨space, space', htext, hspace, hspace'⟩ :=
    exists_append_trimWhere isBlank (trimWhere (· == ',') line)
  refine ⟨commas ++ space, space' ++ commas', ?_, ?_, ?_⟩
  · calc line
        = commas ++ (trimWhere (· == ',') line ++ commas') := hline
      _ = commas ++ ((space ++ (columnText line ++ space')) ++ commas') :=
        congrArg (fun cs => commas ++ (cs ++ commas')) htext
      _ = commas ++ space ++ (columnText line ++ (space' ++ commas')) := by
        simp only [List.append_assoc]
  · rw [List.forall_mem_append]
    exact ⟨fun c hc => .inr (eq_of_beq (hcommas c hc)), fun c hc => .inl (hspace c hc)⟩
  · rw [List.forall_mem_append]
    exact ⟨fun c hc => .inl (hspace' c hc), fun c hc => .inr (eq_of_beq (hcommas' c hc))⟩

theorem IsSecondWord.append {text raw rest front back : List Char} (h : IsSecondWord text raw rest)
    (hfront : ∀ c ∈ front, isWord c = false) (hback : ∀ c ∈ back, isWord c = false) :
    IsSecondWord (front ++ (text ++ back)) raw (rest ++ back) := by
  obtain ⟨front', name, between, rfl, hfront', hname, hbetween, hraw⟩ := h
  have hname' := hname.append hback
  rw [List.append_assoc, List.append_assoc] at hname'
  refine ⟨front ++ front', name, between, by simp only [List.append_assoc],
    List.forall_mem_append.2 ⟨hfront, hfront'⟩, hname', hbetween, hraw.append hback⟩

theorem unsignedNext_append_iff {cs back : List Char} (hback : ∀ c ∈ back, isWord c = false) :
    UnsignedNext (cs ++ back) ↔ UnsignedNext cs := by
  constructor
  · rintro ⟨space, group, space', word, rest, heq, hspace, hgroup, hspace', hword, hends⟩
    obtain ⟨hne, hclass⟩ := isWord_of_spells (by decide +kernel) hword
    have heq' : cs ++ back = (space ++ (group ++ space')) ++ (word ++ rest) := by
      simpa only [List.append_assoc] using heq
    obtain ⟨rest', rfl, rfl⟩ := exists_of_append_eq_word hback hne hclass heq'
    exact ⟨space, group, space', word, rest', by simp only [List.append_assoc], hspace, hgroup,
      hspace', hword, (wordEnds_append_iff hback).1 hends⟩
  · rintro ⟨space, group, space', word, rest, rfl, hspace, hgroup, hspace', hword, hends⟩
    exact ⟨space, group, space', word, rest ++ back, by simp only [List.append_assoc], hspace,
      hgroup, hspace', hword, (wordEnds_append_iff hback).2 hends⟩

theorem IsSecondWord.unique {text raw rest raw' rest' : List Char} (h : IsSecondWord text raw rest)
    (h' : IsSecondWord text raw' rest') : raw = raw' ∧ rest = rest' := by
  rw [isSecondWord_iff] at h h'
  exact Prod.mk.inj (h.2.symm.trans h'.2)

/-- A line that is read as a column has a second word, which spells the kind of the column or, with
the word for a type without sign behind it, the kind with sign. -/
theorem exists_of_readColumn {line : List Char} {c : Column} (h : readColumn line = .ok c) :
    ∃ raw rest k, IsSecondWord line raw rest ∧ Kind.ofRaw? (String.ofList raw) = some k ∧
      c.kind = if k = .int ∧ UnsignedNext rest then .uint else k := by
  obtain ⟨text, name, rest, raw, rest', kind, rfl, -, hfirst, hsecond, hraw, hkind, -, rfl⟩ :=
    readColumn_eq_ok.1 h
  obtain ⟨front, back, hline, hfront, hback⟩ := exists_columnText line
  have hnoWord {cs : List Char} (hcs : ∀ c ∈ cs, isBlank c = true ∨ c = ',') :
      ∀ c ∈ cs, isWord c = false := by
    intro c hc
    rcases hcs c hc with hblank | rfl
    · exact isWord_of_isBlank hblank
    · decide
  have htext : IsSecondWord (columnText line) raw rest' := by
    rw [isSecondWord_iff, hfirst]
    exact ⟨hraw, hsecond⟩
  have hword := htext.append (hnoWord hfront) (hnoWord hback)
  rw [← hline] at hword
  obtain ⟨k, hk, rfl⟩ := Option.map_eq_some_iff.1 hkind
  refine ⟨raw, rest' ++ back, k, hword, hk, ?_⟩
  simp only [columnOf, unsignedFollows_iff, unsignedNext_append_iff (hnoWord hback)]

def IsOneWord (text : List Char) : Prop :=
  ∃ front name back, text = front ++ (name ++ back) ∧ (∀ c ∈ front, isWord c = false) ∧
    name ≠ [] ∧ (∀ c ∈ name, isWord c = true) ∧ ∀ c ∈ back, isWord c = false

/-- A line with a name, a type and the word for a type without sign in front. -/
def IsUnsignedLine (type line : List Char) : Prop :=
  ∃ head gap space word rest, line = head ++ (gap ++ (type ++ (space ++ (word ++ rest)))) ∧
    IsOneWord head ∧ IsGap gap ∧ IsGap space ∧ Spells "unsigned" word ∧ wordEnds rest = true

theorem IsUnsignedLine.isSecondWord {type line : List Char} {k : Kind}
    (h : IsUnsignedLine type line)
    (hk : Kind.ofRaw? (String.ofList (type ++ " unsigned".toList)) = some k) :
    ∃ raw rest kind, IsSecondWord line raw rest ∧ UnsignedNext rest ∧
      Kind.ofRaw? (String.ofList raw) = some kind ∧ kind.withoutSign = k := by
  obtain ⟨_, gap, space, word, rest, rfl, ⟨front, name, back, rfl, hfront, hname, hclass, hback⟩,
    hgap, hspace, hword, hends⟩ := h
  obtain ⟨front', raw, back', kind, rfl, hfront', hraw, hletters, hback', hkind, hsign⟩ :=
    Kind.exists_of_ofRaw?_unsigned hk
  have hbetween : ∀ c ∈ back ++ (gap ++ front'), isWord c = false := by
    simp only [List.forall_mem_append]
    exact ⟨hback, noWord_of_blank hgap.isBlank, noWord_of_blank hfront'⟩
  have hbehind : ∀ c ∈ back' ++ space, isBlank c = true :=
    List.forall_mem_append.2 ⟨hback', hspace.isBlank⟩
  refine ⟨raw, back' ++ (space ++ (word ++ rest)), kind,
    ⟨front, name, back ++ (gap ++ front'), by simp only [List.append_assoc], hfront,
      ⟨hname, hclass, ?_⟩, hbetween, hraw, hletters, ?_⟩,
    ⟨back' ++ space, [], [], word, rest, by simp only [List.append_assoc, List.nil_append], hbehind,
      .inl rfl, List.forall_mem_nil _, hword, hends⟩, hkind, hsign⟩
  · exact wordEnds_append_of_ne_nil (by simp [hgap.notEmpty]) hbetween _
  · rw [← List.append_assoc]
    exact wordEnds_append_of_ne_nil (by simp [hspace.notEmpty]) (noWord_of_blank hbehind) _

/-- The kind of a column is that of the second word of its line, whatever else the line says, with
one exception: an integer has no sign if the word for that stands right behind its type. The table
of types says the same of a type with that word behind it. -/
theorem kind_of_readColumn {line : List Char} {c : Column} (h : readColumn line = .ok c) :
    (∃ raw rest, IsSecondWord line raw rest) ∧
    (∀ raw rest, IsSecondWord line raw rest → ∃ k, Kind.ofRaw? (String.ofList raw) = some k ∧
      (k ≠ .int → c.kind = k) ∧
      (k = .int → (c.kind = .uint ↔ UnsignedNext rest) ∧
        (c.kind = .int ↔ ¬ UnsignedNext rest))) ∧
    ∀ type k, IsUnsignedLine type line →
      Kind.ofRaw? (String.ofList (type ++ " unsigned".toList)) = some k → c.kind = k := by
  obtain ⟨raw, rest, k, hword, hk, hkind⟩ := exists_of_readColumn h
  refine ⟨⟨raw, rest, hword⟩, ?_, ?_⟩
  · intro raw' rest' hword'
    obtain ⟨rfl, rfl⟩ := hword.unique hword'
    refine ⟨k, hk, fun hne => ?_, ?_⟩
    · rw [hkind, if_neg fun hint => hne hint.1]
    · rintro rfl
      by_cases hnext : UnsignedNext rest <;> simp [hkind, hnext]
  · intro type k' hline hk'
    obtain ⟨raw', rest', kind, hword', hnext, hraw, rfl⟩ := hline.isSecondWord hk'
    obtain ⟨rfl, rfl⟩ := hword.unique hword'
    obtain rfl : k = kind := Option.some.inj (hk.symm.trans hraw)
    rw [hkind, Kind.withoutSign]
    simp only [hnext, and_true]

def countLine : List Char := "`count` BigInt unsigned DEFAULT 0,".toList

theorem kind_countLine : ∃ c, readColumn countLine = .ok c ∧
    IsUnsignedLine "BigInt".toList countLine ∧ c.kind = .uint := by
  have hread : readColumn countLine =
      .ok ⟨"count", "Count", .uint, some "0", [], true⟩ := rfl
  have hline : IsUnsignedLine "BigInt".toList countLine := by
    have hquote : ∀ c ∈ ['`'], isWord c = false := List.forall_mem_singleton.2 rfl
    refine ⟨"`count`".toList, [' '], [' '], "unsigned".toList, " DEFAULT 0,".toList, rfl,
      ⟨['`'], "count".toList, ['`'], rfl, hquote, by decide, List.all_eq_true.1 rfl, hquote⟩,
      isGap_space, isGap_space, by decide, rfl⟩
  exact ⟨_, hread, hline, (kind_of_readColumn hread).2.2 _ _ hline (by decide +kernel)⟩

end SchemaModels.Ddl
