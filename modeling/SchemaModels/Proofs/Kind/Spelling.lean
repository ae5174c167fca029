import SchemaModels.Kind
import SchemaModels.Proofs.Text.Folded
import SchemaModels.Proofs.Text.Keyword
import SchemaModels.Proofs.Text.Runs

namespace SchemaModels

namespace Kind

open Text

def words (raw : List Char) : List (List Char) :=
  (runs (fun c => !isBlank c) raw).map (·.map Char.toLower)

theorem spelling_of_noBlank {raw : List Char} (hne : raw ≠ [])
    (hblank : ∀ c ∈ raw, isBlank c = false) : spelling raw = raw.map Char.toLower := by
  rw [spelling, runs_of_forall hne (by simpa using hblank)]
  simp [List.intercalate]

theorem space_notMem_of_mem_words {raw word : List Char} (h : word ∈ words raw) : ' ' ∉ word := by
  obtain ⟨run, hrun, rfl⟩ := List.mem_map.1 h
  have hclass := (of_mem_splitWhere (List.mem_filter.1 hrun).1).2
  intro hmem
  obtain ⟨c, hc, heq⟩ := List.mem_map.1 hmem
  have hblank : isBlank c.toLower = true := heq ▸ rfl
  rw [isBlank_toLower] at hblank
  simpa [hblank] using hclass c hc

theorem splitOn_spelling {raw : List Char} (h : words raw ≠ []) :
    splitOn ' ' (spelling raw) = words raw :=
  splitOn_intercalate h fun _ => space_notMem_of_mem_words

def ofSpelling? (s : String) : Option Kind :=
  (synonyms.find? fun entry => entry.2.contains s).map (·.1)

theorem ofRaw?_eq (raw : List Char) :
    ofRaw? (String.ofList raw) = ofSpelling? (String.ofList (spelling raw)) := by
  rw [ofRaw?, String.toList_ofList, ofSpelling?]

theorem exists_of_ofSpelling? {s : String} {k : Kind} (h : ofSpelling? s = some k) :
    ∃ entry ∈ synonyms, entry.1 = k ∧ s ∈ entry.2 := by
  obtain ⟨entry, hfind, hk⟩ := Option.map_eq_some_iff.1 h
  have hcontains : entry.2.contains s = true :=
    List.find?_some (p := fun entry : Kind × List String => entry.2.contains s) hfind
  exact ⟨entry, List.mem_of_find?_eq_some hfind, hk, List.contains_iff_mem.1 hcontains⟩

/-- A spelling of the kind in one word, in any letter case. -/
def IsSpelledBy (k : Kind) (raw : List Char) : Prop :=
  ∃ entry ∈ synonyms, entry.1 = k ∧ ∃ s ∈ entry.2, ' ' ∉ s.toList ∧
    raw.map Char.toLower = s.toList

instance (k : Kind) (raw : List Char) : Decidable (IsSpelledBy k raw) :=
  inferInstanceAs (Decidable (∃ entry ∈ synonyms, entry.1 = k ∧ ∃ s ∈ entry.2, _))

theorem synonyms_oneWord : ∀ entry ∈ synonyms, ∀ s ∈ entry.2, ' ' ∉ s.toList →
    IsKeyword s ∧ ofSpelling? s = some entry.1 := by
  decide +kernel

theorem spells_of_map_toLower {raw : List Char} {s : String} (h : raw.map Char.toLower = s.toList) :
    Spells s raw := by
  rw [Spells, ← h, List.forall₂_map_left_iff, List.forall₂_same]
  simp [folds]

theorem exists_of_isSpelledBy {k : Kind} {raw : List Char} (h : IsSpelledBy k raw) :
    ∃ entry ∈ synonyms, ∃ s ∈ entry.2, IsKeyword s ∧ Spells s raw := by
  obtain ⟨entry, hentry, -, s, hs, hspace, hraw⟩ := h
  exact ⟨entry, hentry, s, hs, (synonyms_oneWord entry hentry s hs hspace).1,
    spells_of_map_toLower hraw⟩

theorem ofRaw?_of_isSpelledBy {k : Kind} {raw : List Char} (h : IsSpelledBy k raw) :
    ofRaw? (String.ofList raw) = some k := by
  obtain ⟨entry, hentry, rfl, s, hs, hspace, hraw⟩ := h
  obtain ⟨hkeyword, hkind⟩ := synonyms_oneWord entry hentry s hs hspace
  obtain ⟨hne, hword⟩ := isWord_of_spells hkeyword (spells_of_map_toLower hraw)
  rw [ofRaw?_eq, spelling_of_noBlank hne fun c hc => isBlank_of_isWord (hword c hc), hraw,
    String.ofList_toList, hkind]

def withoutSign (k : Kind) : Kind := if k = .int then .uint else k

/-- A spelling that ends in the word for a type without sign has one word in front, which spells
the type with sign. -/
theorem synonyms_withoutSign : ∀ entry ∈ synonyms, ∀ s ∈ entry.2,
    (splitOn ' ' s.toList).getLast? = some "unsigned".toList →
      (splitOn ' ' s.toList).length = 2 ∧ ∀ word ∈ (splitOn ' ' s.toList).head?,
        word.all Char.isAlpha = true ∧
        (ofSpelling? (String.ofList word)).map withoutSign = some entry.1 := by
  decide +kernel

theorem words_append_space (front back : List Char) :
    words (front ++ ' ' :: back) = words front ++ words back := by
  rw [words, runs_append_cons (by decide), List.map_append]
  rfl

theorem exists_of_ofRaw?_unsigned {type : List Char} {k : Kind}
    (h : ofRaw? (String.ofList (type ++ " unsigned".toList)) = some k) :
    ∃ front raw back kind, type = front ++ (raw ++ back) ∧ (∀ c ∈ front, isBlank c = true) ∧
      raw ≠ [] ∧ (∀ c ∈ raw, isWord c = true) ∧ (∀ c ∈ back, isBlank c = true) ∧
      ofRaw? (String.ofList raw) = some kind ∧ kind.withoutSign = k := by
  rw [ofRaw?_eq] at h
  obtain ⟨entry, hentry, rfl, hs⟩ := exists_of_ofSpelling? h
  have hwords : words (type ++ " unsigned".toList) = words type ++ ["unsigned".toList] :=
    words_append_space type "unsigned".toList
  have hsplit : splitOn ' ' (spelling (type ++ " unsigned".toList)) =
      words type ++ ["unsigned".toList] := by
    rw [splitOn_spelling, hwords]
    exact hwords ▸ List.append_ne_nil_of_right_ne_nil _ (List.cons_ne_nil _ _)
  -- In the table, `unsigned` stands behind one word, which names a kind by itself.
  have htable := synonyms_withoutSign entry hentry _ hs
  rw [String.toList_ofList, hsplit, List.getLast?_concat] at htable
  obtain ⟨hlen, hword⟩ := htable rfl
  have hone : (words type).length = 1 := by simpa using hlen
  rw [words, List.length_map, List.length_eq_one_iff] at hone
  obtain ⟨raw, hrun⟩ := hone
  obtain ⟨front, back, htype, hfront, hne, hraw, hback⟩ := exists_of_runs_eq_singleton hrun
  have hfirst : words type = [raw.map Char.toLower] := by
    rw [words, hrun]
    rfl
  obtain ⟨halpha, hkind⟩ := hword (raw.map Char.toLower) (by rw [hfirst]; rfl)
  obtain ⟨kind, hkind, hk⟩ := Option.map_eq_some_iff.1 hkind
  refine ⟨front, raw, back, kind, htype, by simpa using hfront, hne, ?_, by simpa using hback, ?_,
    hk⟩
  · intro c hc
    apply isWord_of_folds (List.all_eq_true.1 halpha _ (List.mem_map_of_mem hc))
    simp [folds]
  · rw [ofRaw?_eq, spelling_of_noBlank hne (by simpa using hraw), hkind]

end Kind

end SchemaModels
