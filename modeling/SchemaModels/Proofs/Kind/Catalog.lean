import SchemaModels.Proofs.Kind.Spelling
import SchemaModels.Proofs.Name.Identifier

namespace SchemaModels.Kind

open Text

/-- The words of the raw spelling are those of `s` one by one, up to the case of ASCII letters. -/
def IsSpelling (s raw : String) : Prop :=
  List.Forall₂ (List.Forall₂ SameLetter) (splitOn ' ' s.toList)
    (runs (fun c => !isBlank c) raw.toList)

instance (s raw : String) : Decidable (IsSpelling s raw) :=
  inferInstanceAs (Decidable (List.Forall₂ _ _ _))

/-- The table has a spelling of the kind with the words of the raw one. -/
def Catalogued (k : Kind) (raw : String) : Prop :=
  ∃ entry ∈ synonyms, entry.1 = k ∧ ∃ s ∈ entry.2, IsSpelling s raw

instance (k : Kind) (raw : String) : Decidable (Catalogued k raw) :=
  inferInstanceAs (Decidable (∃ entry ∈ synonyms, entry.1 = k ∧ ∃ s ∈ entry.2, _))

def entries : List (String × Kind) := synonyms.flatMap fun entry => entry.2.map (·, entry.1)

/-- The kinds by their spellings, filled in one after the other: a spelling that came again would
get the later kind. -/
def lookup : Std.HashMap String Kind := .ofList entries

theorem mem_entries_iff {s : String} {k : Kind} :
    (s, k) ∈ entries ↔ ∃ entry ∈ synonyms, entry.1 = k ∧ s ∈ entry.2 := by
  simp only [entries, List.mem_flatMap, List.mem_map, Prod.mk.injEq]
  constructor
  · rintro ⟨entry, hentry, _, hs, rfl, hk⟩
    exact ⟨entry, hentry, hk, hs⟩
  · rintro ⟨entry, hentry, hk, hs⟩
    exact ⟨entry, hentry, s, hs, rfl, hk⟩

theorem entries_apart : entries.Pairwise fun a b => (a.1 == b.1) = false := by
  decide +kernel

theorem ofSpelling?_of_mem : ∀ entry ∈ synonyms, ∀ s ∈ entry.2, ofSpelling? s = some entry.1 := by
  decide +kernel

theorem synonyms_words : ∀ entry ∈ synonyms, ∀ s ∈ entry.2, s.toList ≠ [] ∧
    ∀ word ∈ splitOn ' ' s.toList, word.map Char.toLower = word ∧ word.all Char.isAlpha = true := by
  decide +kernel

theorem ofSpelling?_eq_some_iff {s : String} {k : Kind} :
    ofSpelling? s = some k ↔ (s, k) ∈ entries := by
  rw [mem_entries_iff]
  refine ⟨exists_of_ofSpelling?, ?_⟩
  rintro ⟨entry, hentry, rfl, hs⟩
  exact ofSpelling?_of_mem entry hentry s hs

theorem getElem?_lookup (s : String) : lookup[s]? = ofSpelling? s := by
  cases hkind : ofSpelling? s with
  | some k =>
    exact Std.HashMap.getElem?_ofList_of_mem (beq_self_eq_true s) entries_apart
      (ofSpelling?_eq_some_iff.1 hkind)
  | none =>
    apply Std.HashMap.getElem?_ofList_of_contains_eq_false
    rw [Bool.eq_false_iff]
    intro hcontains
    obtain ⟨⟨_, k⟩, hmem, rfl⟩ := List.mem_map.1 (List.contains_iff_mem.1 hcontains)
    rw [ofSpelling?_eq_some_iff.2 hmem] at hkind
    cases hkind

section Table

variable {entry : Kind × List String} (hentry : entry ∈ synonyms) {s : String} (hs : s ∈ entry.2)
  {raw : String}

include hentry hs

theorem isSpelling_iff_splitOn : IsSpelling s raw ↔ splitOn ' ' s.toList = words raw.toList := by
  have hwords := (synonyms_words entry hentry s hs).2
  have hlower : (splitOn ' ' s.toList).map (List.map Char.toLower) = splitOn ' ' s.toList :=
    (List.map_congr_left fun word hword => (hwords word hword).1).trans (List.map_id _)
  rw [IsSpelling, ← map_map_toLower_eq_iff, hlower]
  rfl

/-- The words of a raw spelling are those of one in the table exactly if they give it when they are
put together. -/
theorem isSpelling_iff_eq : IsSpelling s raw ↔ s = String.ofList (spelling raw.toList) := by
  have hjoined : spelling raw.toList = [' '].intercalate (words raw.toList) := rfl
  rw [isSpelling_iff_splitOn hentry hs, ← String.toList_inj, String.toList_ofList]
  constructor
  · intro h
    rw [hjoined, ← h, intercalate_splitOn]
  · intro h
    have hne : words raw.toList ≠ [] := by
      intro hnil
      rw [hjoined, hnil] at h
      exact (synonyms_words entry hentry s hs).1 h
    rw [h, splitOn_spelling hne]

end Table

theorem ofRaw?_eq_some_iff {raw : String} {k : Kind} :
    ofRaw? raw = some k ↔ Catalogued k raw := by
  have hraw : ofRaw? raw = ofSpelling? (String.ofList (spelling raw.toList)) := rfl
  rw [hraw, ofSpelling?_eq_some_iff, mem_entries_iff, Catalogued]
  refine exists_congr fun entry => and_congr_right fun hentry => and_congr_right fun _ => ?_
  constructor
  · intro hs
    exact ⟨_, hs, (isSpelling_iff_eq hentry hs).2 rfl⟩
  · rintro ⟨s, hs, hspelling⟩
    rwa [← (isSpelling_iff_eq hentry hs).1 hspelling]

theorem words_eq_runs (raw : List Char) :
    words raw = runs (fun c => !isBlank c) (raw.map Char.toLower) :=
  (runs_map (fun c => by rw [isBlank_toLower]) raw).symm

theorem ofRaw?_congr {a b : String} (h : words a.toList = words b.toList) :
    ofRaw? a = ofRaw? b := by
  have hspelling : spelling a.toList = spelling b.toList := congrArg ([' '].intercalate ·) h
  rw [ofRaw?, ofRaw?, hspelling]

theorem isAlpha_of_catalogued {raw : String} {k : Kind} (h : Catalogued k raw) {c : Char}
    (hc : c ∈ raw.toList) (hblank : isBlank c = false) : c.isAlpha = true := by
  obtain ⟨entry, hentry, -, s, hs, hspelling⟩ := h
  rw [isSpelling_iff_splitOn hentry hs] at hspelling
  obtain ⟨run, hrun, hmem⟩ :=
    mem_splitWhere_of_mem (p := fun c => !!isBlank c) hc (by simp [hblank])
  have hkept : run ∈ runs (fun c => !isBlank c) raw.toList :=
    List.mem_filter.2 ⟨hrun, by simpa using List.ne_nil_of_mem hmem⟩
  have hword : run.map Char.toLower ∈ splitOn ' ' s.toList :=
    hspelling ▸ List.mem_map_of_mem hkept
  have hletters := List.all_eq_true.1 ((synonyms_words entry hentry s hs).2 _ hword).2
  exact isAlpha_of_isAlpha_toLower (hletters _ (List.mem_map_of_mem hmem))

/-- A raw spelling has a kind exactly if the table has its words under that kind, up to ASCII case.
So no raw spelling has two kinds, case and blanks do not matter, and there is no other letter in one
than those of ASCII. No entry is lost when the table is filled one spelling after the other. -/
theorem ofRaw?_decides (raw : String) :
    (∀ k, ofRaw? raw = some k ↔ Catalogued k raw) ∧
    (∀ k k', Catalogued k raw → Catalogued k' raw → k = k') ∧
    lookup[String.ofList (spelling raw.toList)]? = ofRaw? raw ∧
    (∀ entry ∈ entries, lookup[entry.1]? = some entry.2) ∧
    (∀ other : String, SameName raw other ∨
        Respaced (fun c => !isBlank c) raw.toList other.toList → ofRaw? other = ofRaw? raw) ∧
    ∀ k, Catalogued k raw → ∀ c ∈ raw.toList, isBlank c = false → c.isAlpha = true := by
  refine ⟨fun k => ofRaw?_eq_some_iff, fun k k' h h' => ?_, getElem?_lookup _,
    fun entry hentry => ?_, fun other hother => ?_, fun k h c hc => isAlpha_of_catalogued h hc⟩
  · exact Option.some.inj ((ofRaw?_eq_some_iff.2 h).symm.trans (ofRaw?_eq_some_iff.2 h'))
  · rw [getElem?_lookup]
    exact ofSpelling?_eq_some_iff.2 hentry
  · apply ofRaw?_congr
    rcases hother with hcase | hspaced
    · rw [words_eq_runs, words_eq_runs, map_toLower_eq_iff.2 hcase]
    · rw [words, words, hspaced.runs_eq]

def spacedBigint : String := "\u3000BigInt\t\u00a0 Unsigned\n"

theorem spacedBigint_decides : Catalogued .uint spacedBigint ∧ ofRaw? spacedBigint = some .uint ∧
    SameName spacedBigint "\u3000bIGINT\t\u00a0 uNSIGNED\n" ∧
    ofRaw? "\u3000bIGINT\t\u00a0 uNSIGNED\n" = ofRaw? spacedBigint ∧
    Respaced (fun c => !isBlank c) spacedBigint.toList "BigInt Unsigned ".toList ∧
    ofRaw? "BigInt Unsigned " = ofRaw? spacedBigint ∧
    'g' ∈ spacedBigint.toList ∧ isBlank 'g' = false ∧ Char.isAlpha 'g' = true := by
  obtain ⟨hkind, -, -, -, hvariant, hletters⟩ := ofRaw?_decides spacedBigint
  have hcatalogued : Catalogued .uint spacedBigint := by decide +kernel
  have hcase : SameName spacedBigint "\u3000bIGINT\t\u00a0 uNSIGNED\n" := by decide +kernel
  have hspaced : Respaced (fun c => !isBlank c) spacedBigint.toList "BigInt Unsigned ".toList :=
    respaced_iff.2 (by decide +kernel)
  have hmem : 'g' ∈ spacedBigint.toList := by decide
  exact ⟨hcatalogued, (hkind .uint).2 hcatalogued, hcase, hvariant _ (.inl hcase), hspaced,
    hvariant _ (.inr hspaced), hmem, by decide, hletters .uint hcatalogued 'g' hmem (by decide)⟩

/-- The long s has the capital of s, but it spells nothing. -/
example : ofRaw? "set" = some .string ∧ ofRaw? "\u017fet" = none := by decide +kernel

end SchemaModels.Kind
