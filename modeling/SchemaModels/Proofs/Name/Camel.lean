import SchemaModels.Proofs.Ddl.WellFormed
import SchemaModels.Name

namespace SchemaModels

namespace Text

/-- Of the ASCII range only letters, digits and the underscore. -/
def isNameChar (c : Char) : Bool := !isAscii c || c.isAlphanum || c == '_'

theorem isNameChar_of_not_isAscii {c : Char} (h : ¬ isAscii c = true) : isNameChar c = true := by
  simp [isNameChar, h]

theorem isNameChar_of_isWord {c : Char} (h : isWord c = true) : isNameChar c = true := by
  unfold isWord at h
  split at h
  · rw [isNameChar, Bool.or_assoc, h, Bool.or_true]
  · rename_i hc
    exact isNameChar_of_not_isAscii hc

theorem isNameChar_of_isIdentifierRest {c : Char} (h : isIdentifierRest c = true) :
    isNameChar c = true := by
  rw [isIdentifierRest, Bool.or_eq_true, isAlphanumeric] at h
  rcases h with h | h
  · split at h
    · simp [isNameChar, h]
    · rename_i hc
      exact isNameChar_of_not_isAscii hc
  · simp [isNameChar, h]

theorem toNat_ofNat {n : Nat} (h : n.isValidChar) : (Char.ofNat n).toNat = n := by
  rw [Char.ofNat, dif_pos h]
  rfl

/-- Spans of code points for names, without the small letters of the ASCII range. -/
def upperSpans : List (Nat × Nat) := [(0x41, 0x5a), (0x80, 0xd7ff), (0xe000, 0x10ffff)]

/-- The code point of a character that upper case may give. -/
def IsUpperCode (n : Nat) : Prop := ∃ span ∈ upperSpans, span.1 ≤ n ∧ n ≤ span.2

theorem IsUpperCode.isNameChar {n : Nat} (h : IsUpperCode n) :
    isNameChar (Char.ofNat n) = true ∧ (Char.ofNat n).isLower = false := by
  have hspan : (0x41 ≤ n ∧ n ≤ 0x5a) ∨ (0x80 ≤ n ∧ n ≤ 0xd7ff) ∨ (0xe000 ≤ n ∧ n ≤ 0x10ffff) := by
    simpa [IsUpperCode, upperSpans] using h
  have hcode : (Char.ofNat n).toNat = n := toNat_ofNat (by simp only [Nat.isValidChar]; omega)
  constructor
  · rcases Nat.lt_or_ge n 0x80 with hlt | hge
    · have capital : ∀ n < 0x5b, 0x41 ≤ n → Text.isNameChar (Char.ofNat n) = true := by decide
      exact capital n (by omega) (by omega)
    · apply isNameChar_of_not_isAscii
      simpa [isAscii, hcode] using hge
  · rw [← Bool.not_eq_true, isLower_iff, hcode]
    omega

theorem upperExpansions_codes : ∀ e ∈ upperExpansions, e.2 ≠ [] ∧
    ∀ n ∈ e.2, ∃ span ∈ upperSpans, span.1 ≤ n ∧ n ≤ span.2 := by
  decide +kernel

theorem upperRuns_codes : ∀ r ∈ upperRuns, ∃ span ∈ upperSpans,
    (span.1 : Int) ≤ r.first + r.shift ∧ r.last + r.shift ≤ (span.2 : Int) := by
  decide +kernel

/-- A code point maps to the codes of its expansion, to the one that a run shifts it to, or to
itself. -/
theorem mapCode_cases (expansions : List (Nat × List Nat)) (runs : List CaseRun) (n : Nat) :
    (∃ codes, (n, codes) ∈ expansions ∧ mapCode expansions runs n = codes) ∨
      (∃ r ∈ runs, r.holds n = true ∧ mapCode expansions runs n = [(n + r.shift).toNat]) ∨
      mapCode expansions runs n = [n] := by
  unfold mapCode
  cases hlookup : expansions.lookup n with
  | some codes =>
    obtain ⟨front, back, hsplit, -⟩ := List.lookup_eq_some_iff.1 hlookup
    exact Or.inl ⟨codes, hsplit ▸ by simp, rfl⟩
  | none =>
    cases hfind : runs.find? (·.holds n) with
    | some r =>
      have hholds := List.find?_some hfind
      exact Or.inr (Or.inl ⟨r, List.mem_of_find?_eq_some hfind, hholds, rfl⟩)
    | none => exact Or.inr (Or.inr rfl)

theorem CaseRun.of_holds {r : CaseRun} {n : Nat} (h : r.holds n = true) :
    r.first ≤ n ∧ n ≤ r.last := by
  simp only [CaseRun.holds, Bool.and_eq_true, decide_eq_true_eq] at h
  exact h.1

theorem mapCode_upper {c : Char} (hc : ¬ isAscii c = true) :
    mapCode upperExpansions upperRuns c.toNat ≠ [] ∧
      ∀ n ∈ mapCode upperExpansions upperRuns c.toNat, IsUpperCode n := by
  rcases mapCode_cases upperExpansions upperRuns c.toNat with
    ⟨codes, hmem, heq⟩ | ⟨r, hr, hholds, heq⟩ | heq <;> rw [heq]
  · exact upperExpansions_codes (c.toNat, codes) hmem
  · obtain ⟨span, hspan, hfirst, hlast⟩ := upperRuns_codes r hr
    have hcode := CaseRun.of_holds hholds
    exact ⟨List.cons_ne_nil _ _,
      List.forall_mem_singleton.2 ⟨span, hspan, by omega, by omega⟩⟩
  · refine ⟨List.cons_ne_nil _ _, List.forall_mem_singleton.2 ?_⟩
    simp only [isAscii, decide_eq_true_eq] at hc
    have hvalid : c.toNat.isValidChar := c.valid
    simp only [IsUpperCode, upperSpans, List.mem_cons, List.not_mem_nil, or_false,
      exists_eq_or_imp, exists_eq_left]
    simp only [Nat.isValidChar] at hvalid
    omega

theorem toUpper_ascii : ∀ n < 0x80, (Char.ofNat n).toUpper.isLower = false ∧
    (isNameChar (Char.ofNat n) = true → isNameChar (Char.ofNat n).toUpper = true) := by
  decide

theorem upper_ne_nil (c : Char) : upper c ≠ [] := by
  unfold upper
  split
  · exact List.cons_ne_nil _ _
  · rename_i hc
    simpa using (mapCode_upper hc).1

theorem of_mem_upper {c u : Char} (h : u ∈ upper c) :
    u.isLower = false ∧ (isNameChar c = true → isNameChar u = true) := by
  unfold upper at h
  split at h
  · rename_i hc
    rw [List.mem_singleton.1 h]
    exact of_isAscii (P := fun c => c.toUpper.isLower = false ∧
      (isNameChar c = true → isNameChar c.toUpper = true)) toUpper_ascii hc
  · rename_i hc
    obtain ⟨n, hn, rfl⟩ := List.mem_map.1 h
    have hcode := ((mapCode_upper hc).2 n hn).isNameChar
    exact ⟨hcode.2, fun _ => hcode.1⟩

end Text

namespace Name

open Text

theorem toList_camelCase (s : String) : (camelCase s).toList = camelChars s.toList :=
  String.toList_ofList

theorem forall_mem_camelChars {P : Char → Prop} (hupper : ∀ c, P c → ∀ u ∈ upper c, P u)
    {cs : List Char} (h : ∀ c ∈ cs, P c) : ∀ c ∈ camelChars cs, P c := by
  intro c hc
  obtain ⟨segment, hsegment, hmem⟩ := List.mem_flatMap.1 hc
  have hsub : segment ⊆ cs := (of_mem_splitWhere hsegment).1
  cases segment with
  | nil => cases hmem
  | cons first rest =>
    rcases List.mem_append.1 hmem with hfirst | hrest
    · exact hupper first (h first (hsub List.mem_cons_self)) c hfirst
    · exact h c (hsub (List.mem_cons_of_mem first hrest))

theorem isLower_of_head_camelChars {cs : List Char} :
    ∀ c ∈ (camelChars cs).head?, c.isLower = false := by
  unfold camelChars
  induction splitOn '_' cs with
  | nil => simp
  | cons segment segments ih =>
    rw [List.flatMap_cons]
    cases segment with
    | nil => exact ih
    | cons first rest =>
      intro c hc
      rw [capitalize, List.append_assoc, List.head?_append_of_ne_nil _ (upper_ne_nil first)] at hc
      exact (of_mem_upper (List.mem_of_mem_head? hc)).1

theorem isIdentifierRest_of_mem_clean {cs : List Char} {c : Char} (h : c ∈ clean cs) :
    isIdentifierRest c = true := by
  obtain ⟨original, -, rfl⟩ := List.mem_map.1 h
  split
  · assumption
  · rfl

theorem isNameChar_of_mem_clean {cs : List Char} : ∀ c ∈ clean cs, isNameChar c = true :=
  fun _ hc => isNameChar_of_isIdentifierRest (isIdentifierRest_of_mem_clean hc)

/-- Nothing in the name can end it where it stands in a model file. -/
def IsSafe (s : String) : Prop := ∀ c ∈ s.toList, isNameChar c = true

theorem IsSafe.append {a b : String} (ha : IsSafe a) (hb : IsSafe b) : IsSafe (a ++ b) := by
  intro c hc
  rw [String.toList_append, List.mem_append] at hc
  exact hc.elim (ha c) (hb c)

theorem IsSafe.notMem {s : String} (h : IsSafe s) {c : Char} (hc : isNameChar c = false) :
    c ∉ s.toList := by
  intro hmem
  simp [h c hmem] at hc

theorem IsWord.isSafe {s : String} (h : IsWord s) : IsSafe s :=
  fun c hc => isNameChar_of_isWord (h.isWord c hc)

theorem IsSafe.camelCase {s : String} (h : IsSafe s) : IsSafe (Name.camelCase s) := by
  intro c hc
  rw [toList_camelCase] at hc
  exact forall_mem_camelChars (fun c hname u hu => (of_mem_upper hu).2 hname) h c hc

end Name

end SchemaModels
