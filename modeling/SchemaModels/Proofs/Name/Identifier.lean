import Mathlib.Data.List.Sort
import SchemaModels.Proofs.Name.Camel

namespace SchemaModels

namespace Text

/-- Whether some spans of code points, in the order of the ranges, each lie inside one of them. -/
def covers : List (Nat × Nat) → List (Nat × Nat) → Bool
  | [], spans => spans.isEmpty
  | r :: ranges, spans =>
    covers ranges (spans.dropWhile fun s => Nat.ble r.1 s.1 && Nat.ble s.2 r.2)

theorem exists_range_of_covers {ranges spans : List (Nat × Nat)} (h : covers ranges spans = true)
    {s : Nat × Nat} (hs : s ∈ spans) : ∃ r ∈ ranges, r.1 ≤ s.1 ∧ s.2 ≤ r.2 := by
  induction ranges generalizing spans with
  | nil =>
    rw [covers, List.isEmpty_iff] at h
    simp [h] at hs
  | cons r ranges ih =>
    rw [covers] at h
    rw [← List.takeWhile_append_dropWhile (p := fun s => Nat.ble r.1 s.1 && Nat.ble s.2 r.2)
      (l := spans), List.mem_append] at hs
    rcases hs with hinside | hlater
    · have hr := List.mem_takeWhile_imp hinside
      rw [Bool.and_eq_true, Nat.ble_eq, Nat.ble_eq] at hr
      exact ⟨r, List.mem_cons_self, hr⟩
    · obtain ⟨r', hr', hspan⟩ := ih h hlater
      exact ⟨r', List.mem_cons_of_mem r hr', hspan⟩

def IsAlphabeticCode (n : Nat) : Prop := ∃ r ∈ alphabeticRanges, r.1 ≤ n ∧ n ≤ r.2

theorem alphabeticRanges_ascii : ∀ r ∈ alphabeticRanges,
    r.1 < 0x80 → r = (0x41, 0x5a) ∨ r = (0x61, 0x7a) := by
  decide +kernel

theorem isAlphabetic_iff {c : Char} : isAlphabetic c = true ↔ IsAlphabeticCode c.toNat := by
  have hranges : inRanges alphabeticRanges c = true ↔ IsAlphabeticCode c.toNat := by
    simp [inRanges, IsAlphabeticCode]
  unfold isAlphabetic
  split
  · rename_i hc
    rw [isAscii, decide_eq_true_eq] at hc
    rw [isAlpha_iff, isUpper_iff, isLower_iff]
    constructor
    · rintro (h | h)
      · exact ⟨(0x41, 0x5a), by decide +kernel, h⟩
      · exact ⟨(0x61, 0x7a), by decide +kernel, h⟩
    · rintro ⟨r, hr, hlow, hhigh⟩
      rcases alphabeticRanges_ascii r hr (by omega) with rfl | rfl
      · exact Or.inl ⟨hlow, hhigh⟩
      · exact Or.inr ⟨hlow, hhigh⟩
  · exact hranges

def sortSpans (spans : List (Nat × Nat)) : List (Nat × Nat) :=
  spans.insertionSort fun a b => a.1 ≤ b.1

theorem alphabetic_of_covers_sortSpans {spans : List (Nat × Nat)}
    (h : covers alphabeticRanges (sortSpans spans) = true) {s : Nat × Nat} (hs : s ∈ spans)
    {n : Nat} (hlow : s.1 ≤ n) (hhigh : n ≤ s.2) : IsAlphabeticCode n := by
  have hsorted : s ∈ sortSpans spans := (List.perm_insertionSort _ spans).mem_iff.2 hs
  obtain ⟨r, hr, hfirst, hlast⟩ := exists_range_of_covers h hsorted
  exact ⟨r, hr, by omega, by omega⟩

/-- The code points that a shift to upper case changes, and those that it gives. -/
def CaseRun.domain (r : CaseRun) : Nat × Nat := (r.first, r.last)

def CaseRun.image (r : CaseRun) : Nat × Nat := ((r.first + r.shift).toNat, (r.last + r.shift).toNat)

theorem upperRuns_domain :
    covers alphabeticRanges (sortSpans (upperRuns.map CaseRun.domain)) = true := by
  decide +kernel

theorem upperRuns_image :
    covers alphabeticRanges (sortSpans (upperRuns.map CaseRun.image)) = true := by
  decide +kernel

theorem upperExpansions_domain :
    covers alphabeticRanges (sortSpans (upperExpansions.map fun e => (e.1, e.1))) = true := by
  decide +kernel

theorem upperExpansions_image :
    covers alphabeticRanges (sortSpans (upperExpansions.flatMap fun e =>
      e.2.head?.toList.map fun n => (n, n))) = true := by
  decide +kernel

theorem mapCode_alphabetic (n : Nat) : mapCode upperExpansions upperRuns n = [n] ∨
    IsAlphabeticCode n ∧
      ∀ u ∈ (mapCode upperExpansions upperRuns n).head?, IsAlphabeticCode u := by
  rcases mapCode_cases upperExpansions upperRuns n with
    ⟨codes, hmem, heq⟩ | ⟨r, hr, hholds, heq⟩ | heq
  · refine Or.inr ⟨alphabetic_of_covers_sortSpans upperExpansions_domain
      (List.mem_map_of_mem hmem) le_rfl le_rfl, ?_⟩
    intro u hu
    rw [heq] at hu
    have hspan : (u, u) ∈ upperExpansions.flatMap fun e =>
        e.2.head?.toList.map fun n => (n, n) :=
      List.mem_flatMap.2 ⟨(n, codes), hmem, by simpa using hu⟩
    exact alphabetic_of_covers_sortSpans upperExpansions_image hspan le_rfl le_rfl
  · obtain ⟨hfirst, hlast⟩ := CaseRun.of_holds hholds
    refine Or.inr ⟨alphabetic_of_covers_sortSpans upperRuns_domain
      (List.mem_map_of_mem hr) hfirst hlast, ?_⟩
    intro u hu
    rw [heq, List.head?_cons, Option.mem_some_iff] at hu
    refine alphabetic_of_covers_sortSpans upperRuns_image (List.mem_map_of_mem hr) ?_ ?_ <;>
      simp only [CaseRun.image] <;> omega
  · exact Or.inl heq

theorem IsUpperCode.toNat_ofNat {n : Nat} (h : IsUpperCode n) :
    (Char.ofNat n).toNat = n ∧ n ≠ '_'.toNat := by
  simp only [IsUpperCode, upperSpans, List.mem_cons, List.not_mem_nil, or_false,
    exists_eq_or_imp, exists_eq_left] at h
  have hunderscore : '_'.toNat = 0x5f := rfl
  exact ⟨Text.toNat_ofNat (by simp only [Nat.isValidChar]; omega), by omega⟩

theorem toUpper_isAlpha : ∀ n < 0x80,
    isAlphabetic (Char.ofNat n).toUpper = isAlphabetic (Char.ofNat n) ∧
      (isAlphabetic (Char.ofNat n) = false → (Char.ofNat n).toUpper = Char.ofNat n) ∧
      ((Char.ofNat n).toUpper = '_' → Char.ofNat n = '_') := by
  decide

theorem head?_upper {c u : Char} (h : (upper c).head? = some u) :
    isAlphabetic u = isAlphabetic c ∧ (isAlphabetic c = false → upper c = [c]) := by
  unfold upper at h ⊢
  split at h
  · rename_i hc
    have hascii := of_isAscii (P := fun c => isAlphabetic c.toUpper = isAlphabetic c ∧
      (isAlphabetic c = false → c.toUpper = c) ∧ (c.toUpper = '_' → c = '_')) toUpper_isAlpha hc
    cases h
    exact ⟨hascii.1, fun hno => by rw [if_pos hc, hascii.2.1 hno]⟩
  · rename_i hc
    rw [if_neg hc]
    rcases mapCode_alphabetic c.toNat with hself | ⟨hcode, himage⟩
    · rw [hself, List.map_singleton, Char.ofNat_toNat] at h ⊢
      cases h
      exact ⟨rfl, fun _ => rfl⟩
    · rw [List.head?_map, Option.map_eq_some_iff] at h
      obtain ⟨n, hn, rfl⟩ := h
      have hupper := ((mapCode_upper hc).2 n (List.mem_of_mem_head? hn)).toNat_ofNat
      have hletter : isAlphabetic c = true := isAlphabetic_iff.2 hcode
      have himage' : isAlphabetic (Char.ofNat n) = true :=
        isAlphabetic_iff.2 (hupper.1.symm ▸ himage n hn)
      exact ⟨by rw [himage', hletter], by simp [hletter]⟩

theorem underscore_notMem_upper {c : Char} (hc : c ≠ '_') : '_' ∉ upper c := by
  unfold upper
  split
  · rename_i hascii
    have hupper := of_isAscii (P := fun c => c.toUpper = '_' → c = '_')
      (fun n hn => (toUpper_isAlpha n hn).2.2) hascii
    rw [List.mem_singleton]
    exact fun heq => hc (hupper heq.symm)
  · rename_i hascii
    rw [List.mem_map]
    rintro ⟨n, hn, heq⟩
    obtain ⟨hcode, hne⟩ := ((mapCode_upper hascii).2 n hn).toNat_ofNat
    rw [heq] at hcode
    exact hne hcode.symm

theorem isAlphanumeric_of_isAlphabetic {c : Char} (h : isAlphabetic c = true) :
    isAlphanumeric c = true := by
  unfold isAlphabetic at h
  unfold isAlphanumeric
  split <;> rename_i hc
  · rw [if_pos hc] at h
    simp [Char.isAlphanum, h]
  · rw [if_neg hc] at h
    simp [h]

theorem mem_splitWhere_of_mem {p : Char → Bool} {cs : List Char} {c : Char} (hc : c ∈ cs)
    (hp : p c = false) : ∃ piece ∈ splitWhere p cs, c ∈ piece := by
  induction cs with
  | nil => cases hc
  | cons first cs ih =>
    rw [splitWhere]
    split
    · rename_i hsep
      have hne : c ≠ first := by
        rintro rfl
        simp [hp] at hsep
      obtain ⟨piece, hpiece, hmem⟩ := ih ((List.mem_cons.1 hc).resolve_left hne)
      exact ⟨piece, List.mem_cons_of_mem [] hpiece, hmem⟩
    · split
      · rename_i hnil
        exact absurd hnil (splitWhere_ne_nil p cs)
      · rename_i piece pieces hsplit
        rcases List.mem_cons.1 hc with rfl | hrest
        · exact ⟨c :: piece, List.mem_cons_self, List.mem_cons_self⟩
        · rw [hsplit] at ih
          obtain ⟨found, hfound, hmem⟩ := ih hrest
          rcases List.mem_cons.1 hfound with rfl | hlater
          · exact ⟨first :: found, List.mem_cons_self, List.mem_cons_of_mem first hmem⟩
          · exact ⟨found, List.mem_cons_of_mem _ hlater, hmem⟩

end Text

namespace Name

open Text

theorem camelChars_underscore (cs : List Char) : camelChars ('_' :: cs) = camelChars cs := by
  simp [camelChars, splitOn, splitWhere, capitalize]

theorem camelChars_cons {c : Char} (hc : c ≠ '_') (cs : List Char) :
    ∃ rest, camelChars (c :: cs) = upper c ++ rest := by
  obtain ⟨piece, pieces, hsplit⟩ :=
    List.exists_cons_of_ne_nil (splitWhere_ne_nil (· == '_') cs)
  refine ⟨piece ++ pieces.flatMap capitalize, ?_⟩
  simp [camelChars, splitOn, splitWhere, hc, hsplit, capitalize]

theorem underscore_notMem_camelChars (cs : List Char) : '_' ∉ camelChars cs := by
  intro hmem
  obtain ⟨segment, hsegment, hmem⟩ := List.mem_flatMap.1 hmem
  have hno := notMem_of_mem_splitOn hsegment
  cases segment with
  | nil => cases hmem
  | cons c rest =>
    rw [List.mem_cons, not_or] at hno
    rcases List.mem_append.1 hmem with hupper | hrest
    · exact underscore_notMem_upper (Ne.symm hno.1) hupper
    · exact hno.2 hrest

/-- The first character of a camel case comes from the first that is no underscore. -/
theorem head?_camelChars (cs : List Char) :
    (camelChars cs).head? = (cs.find? (· != '_')).bind fun c => (upper c).head? := by
  induction cs with
  | nil => rfl
  | cons c cs ih =>
    by_cases hc : c = '_'
    · rw [hc, camelChars_underscore, ih, List.find?_cons_of_neg (by simp)]
    · obtain ⟨rest, hrest⟩ := camelChars_cons hc cs
      rw [hrest, List.head?_append_of_ne_nil _ (upper_ne_nil c),
        List.find?_cons_of_pos (by simpa using hc)]
      rfl

theorem isIdentifier_iff {s : String} (h : '_' ∉ s.toList) : isIdentifier s = true ↔
    (∃ c, s.toList.head? = some c ∧ isAlphabetic c = true) ∧
      ∀ c ∈ s.toList, isAlphanumeric c = true := by
  unfold isIdentifier
  cases hs : s.toList with
  | nil => simp
  | cons c cs =>
    rw [hs, List.mem_cons, not_or] at h
    have hrest : cs.all isIdentifierRest = true ↔ ∀ u ∈ cs, isAlphanumeric u = true := by
      rw [List.all_eq_true]
      refine forall₂_congr fun u hu => ?_
      have hne : (u == '_') = false := beq_eq_false_iff_ne.2 fun heq => h.2 (heq ▸ hu)
      rw [isIdentifierRest, hne, Bool.or_false]
    have hfirst : (c == '_') = false := beq_eq_false_iff_ne.2 (Ne.symm h.1)
    dsimp only
    rw [hfirst, Bool.or_false, Bool.and_eq_true, hrest, List.forall_mem_cons]
    constructor
    · rintro ⟨hletter, hall⟩
      exact ⟨⟨c, rfl, hletter⟩, isAlphanumeric_of_isAlphabetic hletter, hall⟩
    · rintro ⟨⟨_, ⟨rfl⟩, hletter⟩, -, hall⟩
      exact ⟨hletter, hall⟩

/-- A written name that is an identifier in camel case: the first character besides underscores is
a letter, all others are letters or numbers, and so is all that upper case gives for the first
character of a segment. -/
structure MakesIdentifier (s : String) : Prop where
  starts : ∃ c, s.toList.find? (· != '_') = some c ∧ isAlphabetic c = true
  holds : ∀ c ∈ s.toList, c ≠ '_' → isAlphanumeric c = true
  keeps : ∀ segment ∈ splitOn '_' s.toList, ∀ c ∈ segment.head?, ∀ u ∈ upper c,
    isAlphanumeric u = true

theorem starts_iff {s : String} :
    (∃ u, (camelChars s.toList).head? = some u ∧ isAlphabetic u = true) ↔
      ∃ c, s.toList.find? (· != '_') = some c ∧ isAlphabetic c = true := by
  simp only [head?_camelChars, Option.bind_eq_some_iff]
  constructor
  · rintro ⟨u, ⟨c, hc, hu⟩, hletter⟩
    exact ⟨c, hc, (head?_upper hu).1 ▸ hletter⟩
  · rintro ⟨c, hc, hletter⟩
    obtain ⟨u, rest, hupper⟩ := List.exists_cons_of_ne_nil (upper_ne_nil c)
    have hu : (upper c).head? = some u := by rw [hupper, List.head?_cons]
    exact ⟨u, ⟨c, hc, hu⟩, (head?_upper hu).1.trans hletter⟩

theorem forall_mem_capitalize_iff (segment : List Char) :
    (∀ u ∈ capitalize segment, isAlphanumeric u = true) ↔
      (∀ c ∈ segment, isAlphanumeric c = true) ∧
        ∀ c ∈ segment.head?, ∀ u ∈ upper c, isAlphanumeric u = true := by
  cases segment with
  | nil => simp [capitalize]
  | cons first rest =>
    simp only [capitalize, List.forall_mem_append, List.forall_mem_cons, List.head?_cons,
      Option.mem_some_iff, forall_eq']
    constructor
    · rintro ⟨hupper, hrest⟩
      refine ⟨⟨?_, hrest⟩, hupper⟩
      cases hletter : isAlphabetic first with
      | true => exact isAlphanumeric_of_isAlphabetic hletter
      | false =>
        obtain ⟨u, tail, hcons⟩ := List.exists_cons_of_ne_nil (upper_ne_nil first)
        have hself := (head?_upper (by rw [hcons, List.head?_cons])).2 hletter
        exact hupper first (hself ▸ List.mem_cons_self)
    · rintro ⟨⟨-, hrest⟩, hupper⟩
      exact ⟨hupper, hrest⟩

theorem isIdentifier_camelCase_iff (s : String) :
    isIdentifier (camelCase s) = true ↔ MakesIdentifier s := by
  have hsegments : (∀ u ∈ camelChars s.toList, isAlphanumeric u = true) ↔
      (∀ c ∈ s.toList, c ≠ '_' → isAlphanumeric c = true) ∧
        ∀ segment ∈ splitOn '_' s.toList, ∀ c ∈ segment.head?, ∀ u ∈ upper c,
          isAlphanumeric u = true := by
    rw [camelChars, List.forall_mem_flatMap]
    simp only [forall_mem_capitalize_iff]
    constructor
    · intro h
      refine ⟨fun c hc hne => ?_, fun segment hsegment => (h segment hsegment).2⟩
      obtain ⟨segment, hsegment, hmem⟩ :=
        mem_splitWhere_of_mem (p := (· == '_')) hc (by simpa using hne)
      exact (h segment hsegment).1 c hmem
    · rintro ⟨hholds, hkeeps⟩ segment hsegment
      refine ⟨fun c hc => ?_, hkeeps segment hsegment⟩
      refine hholds c ((of_mem_splitWhere hsegment).1 hc) ?_
      rintro rfl
      exact notMem_of_mem_splitOn hsegment hc
  -- No underscore is left, so that all the characters have to be letters and numbers.
  have hno : '_' ∉ (camelCase s).toList := by
    rw [toList_camelCase]
    exact underscore_notMem_camelChars s.toList
  rw [isIdentifier_iff hno, toList_camelCase, hsegments, starts_iff]
  constructor
  · rintro ⟨hstarts, hholds, hkeeps⟩
    exact ⟨hstarts, hholds, hkeeps⟩
  · intro h
    exact ⟨h.starts, h.holds, h.keeps⟩

theorem isIdentifierRest_of_isIdentifier {s : String} (h : isIdentifier s = true) :
    ∀ c ∈ s.toList, isIdentifierRest c = true := by
  unfold isIdentifier at h
  cases hs : s.toList with
  | nil => exact List.forall_mem_nil _
  | cons c cs =>
    simp only [hs, Bool.and_eq_true, Bool.or_eq_true] at h
    refine List.forall_mem_cons.2 ⟨?_, List.all_eq_true.1 h.2⟩
    rw [isIdentifierRest, Bool.or_eq_true]
    exact h.1.imp_left isAlphanumeric_of_isAlphabetic

theorem isIdentifier_append_of_rest {s : String} (hs : isIdentifier s = true) {more : List Char}
    (hmore : ∀ c ∈ more, isIdentifierRest c = true) :
    isIdentifier (s ++ String.ofList more) = true := by
  unfold isIdentifier at hs ⊢
  rw [String.toList_append, String.toList_ofList]
  cases hcs : s.toList with
  | nil => simp [hcs] at hs
  | cons c cs =>
    simp only [hcs, Bool.and_eq_true] at hs
    simp only [List.cons_append, List.all_append, Bool.and_eq_true]
    exact ⟨hs.1, hs.2, List.all_eq_true.2 hmore⟩

theorem isIdentifier_append {a b : String} (ha : isIdentifier a = true)
    (hb : isIdentifier b = true) : isIdentifier (a ++ b) = true := by
  have h := isIdentifier_append_of_rest ha (isIdentifierRest_of_isIdentifier hb)
  rwa [String.ofList_toList] at h

/-- A cleaned name is an identifier unless it starts with a number that is no letter. -/
theorem isIdentifier_clean_cons_iff (c : Char) (cs : List Char) :
    isIdentifier (String.ofList (clean (c :: cs))) = true ↔
      (isAlphanumeric c = true → isAlphabetic c = true) := by
  have hrest : (clean cs).all isIdentifierRest = true :=
    List.all_eq_true.2 fun _ => isIdentifierRest_of_mem_clean
  have hclean : clean (c :: cs) = (if isIdentifierRest c then c else '_') :: clean cs := rfl
  rw [hclean, isIdentifier, String.toList_ofList]
  dsimp only
  rw [hrest, Bool.and_true, Bool.or_eq_true, beq_iff_eq]
  by_cases hc : isAlphanumeric c = true
  · have hne : c ≠ '_' := by
      rintro rfl
      exact absurd hc (by decide)
    simp [isIdentifierRest, hc, hne]
  · simp [isIdentifierRest, hc]

end Name

end SchemaModels
