import SchemaModels.Proofs.Name.Identifier
import SchemaModels.Proofs.Text.Keyword

namespace SchemaModels.Text

/-- The runs that reach into a span, of runs in increasing order. -/
def touching (span : Nat × Nat) : List CaseRun → List CaseRun
  | [] => []
  | s :: runs =>
    bif Nat.ble s.first span.2 then
      bif Nat.ble span.1 s.last then s :: touching span runs else touching span runs
    else []

theorem mem_touching {span : Nat × Nat} {runs : List CaseRun}
    (hsorted : runs.Pairwise fun r s => r.first ≤ s.first) {s : CaseRun} (hs : s ∈ runs)
    (hlow : s.first ≤ span.2) (hhigh : span.1 ≤ s.last) : s ∈ touching span runs := by
  induction runs with
  | nil => cases hs
  | cons r runs ih =>
    rw [List.pairwise_cons] at hsorted
    have hr : r.first ≤ span.2 := by
      rcases List.mem_cons.1 hs with rfl | hmem
      · exact hlow
      · exact (hsorted.1 s hmem).trans hlow
    rw [touching, Nat.ble_eq_true_of_le hr, cond_true]
    rcases List.mem_cons.1 hs with rfl | hmem
    · rw [Nat.ble_eq_true_of_le hhigh, cond_true]
      exact List.mem_cons_self
    · have hlater := ih hsorted.2 hmem
      cases Nat.ble span.1 r.last with
      | true => exact List.mem_cons_of_mem r hlater
      | false => exact hlater

def CaseRun.single (n : Nat) : CaseRun := ⟨n, n, 1, 0⟩

def expanded : List CaseRun := upperExpansions.map fun e => .single e.1

/-- Runs that give all code points of upper cases. -/
def upperTargets : List CaseRun :=
  upperRuns ++ upperExpansions.flatMap fun e => e.2.map .single

/-- Every second code point is changed by `s`, and those that `r` gives stand between them. -/
def CaseRun.interleaves (r s : CaseRun) : Bool :=
  s.stride == 2 && (r.stride == 2 || r.first == r.last) && (r.image.1 + s.first) % 2 == 1

theorem upperRuns_increasing : upperRuns.Pairwise fun r s => r.first ≤ s.first := by
  have hchain : upperRuns.IsChain fun r s => r.first ≤ s.first := by decide +kernel
  exact hchain.pairwise

theorem expanded_increasing : expanded.Pairwise fun r s => r.first ≤ s.first := by
  have hchain : expanded.IsChain fun r s => r.first ≤ s.first := by decide +kernel
  exact hchain.pairwise

theorem upperTargets_interleave :
    (upperTargets.all fun r => (touching r.image upperRuns).all r.interleaves) = true := by
  decide +kernel

theorem upperTargets_apart :
    (upperTargets.all fun r => (touching r.image expanded).isEmpty) = true := by
  decide +kernel

theorem nonneg_of_mem_upperTargets {r : CaseRun} (hr : r ∈ upperTargets) :
    0 ≤ r.first + r.shift := by
  rcases List.mem_append.1 hr with hrun | hcode
  · obtain ⟨span, -, hspan, -⟩ := upperRuns_codes r hrun
    omega
  · obtain ⟨e, -, hcode⟩ := List.mem_flatMap.1 hcode
    obtain ⟨n, -, rfl⟩ := List.mem_map.1 hcode
    simp [CaseRun.single]

theorem CaseRun.mem_image {r : CaseRun} {n : Nat} (hn : r.holds n = true) :
    r.image.1 ≤ (n + r.shift).toNat ∧ (n + r.shift).toNat ≤ r.image.2 := by
  have hcode := CaseRun.of_holds hn
  simp only [CaseRun.image]
  omega

theorem not_holds_of_interleaves {r s : CaseRun} (h : r.interleaves s = true) {n : Nat}
    (hn : r.holds n = true) (hnonneg : 0 ≤ r.first + r.shift) :
    s.holds (n + r.shift).toNat = false := by
  simp only [CaseRun.interleaves, CaseRun.image, CaseRun.holds, Bool.and_eq_true, Bool.or_eq_true,
    beq_iff_eq, decide_eq_true_eq] at h hn
  obtain ⟨⟨hs, hr⟩, hodd⟩ := h
  obtain ⟨⟨hfirst, hlast⟩, hmod⟩ := hn
  have heven : (n - r.first) % 2 = 0 := by
    rcases hr with hr | hr
    · rwa [hr] at hmod
    · have : n - r.first = 0 := by omega
      rw [this]
  rw [CaseRun.holds, hs]
  simp only [Bool.and_eq_false_iff, decide_eq_false_iff_not, beq_eq_false_iff_ne]
  omega

section Target

variable {r : CaseRun} (hr : r ∈ upperTargets) {n : Nat} (hn : r.holds n = true)

include hr hn

theorem not_holds_target {s : CaseRun} (hs : s ∈ upperRuns) :
    s.holds (n + r.shift).toNat = false := by
  obtain ⟨hlow, hhigh⟩ := CaseRun.mem_image hn
  by_cases htouch : s.first ≤ r.image.2 ∧ r.image.1 ≤ s.last
  · have hmem := mem_touching upperRuns_increasing hs htouch.1 htouch.2
    have hall := List.all_eq_true.1 (List.all_eq_true.1 upperTargets_interleave r hr)
    exact not_holds_of_interleaves (hall s hmem) hn (nonneg_of_mem_upperTargets hr)
  · simp only [CaseRun.holds, Bool.and_eq_false_iff, decide_eq_false_iff_not]
    omega

theorem ne_target {e : Nat × List Nat} (he : e ∈ upperExpansions) :
    e.1 ≠ (n + r.shift).toNat := by
  intro heq
  obtain ⟨hlow, hhigh⟩ := CaseRun.mem_image hn
  rw [← heq] at hlow hhigh
  have hrun : CaseRun.single e.1 ∈ expanded := List.mem_map.2 ⟨e, he, rfl⟩
  have hmem := mem_touching expanded_increasing hrun hhigh hlow
  have hnone := List.isEmpty_iff.1 (List.all_eq_true.1 upperTargets_apart r hr)
  rw [hnone] at hmem
  cases hmem

theorem mapCode_target :
    mapCode upperExpansions upperRuns (n + r.shift).toNat = [(n + r.shift).toNat] := by
  have hlookup : upperExpansions.lookup (n + r.shift).toNat = none := by
    rw [List.lookup_eq_none_iff]
    intro e he
    simpa using (ne_target hr hn he).symm
  have hfind : upperRuns.find? (·.holds (n + r.shift).toNat) = none := by
    rw [List.find?_eq_none]
    intro s hs
    simpa using not_holds_target hr hn hs
  rw [mapCode, hlookup, hfind]

end Target

theorem of_mem_mapCode {n m : Nat} (h : m ∈ mapCode upperExpansions upperRuns n) :
    (m = n ∧ mapCode upperExpansions upperRuns n = [n]) ∨
      ∃ r ∈ upperTargets, ∃ k, r.holds k = true ∧ m = (k + r.shift).toNat := by
  rcases mapCode_cases upperExpansions upperRuns n with
    ⟨codes, hmem, heq⟩ | ⟨r, hr, hholds, heq⟩ | heq
  · rw [heq] at h
    have htarget : CaseRun.single m ∈ upperTargets :=
      List.mem_append_right _ (List.mem_flatMap.2 ⟨_, hmem, List.mem_map_of_mem h⟩)
    exact Or.inr ⟨_, htarget, m, by simp [CaseRun.holds, CaseRun.single],
      by simp [CaseRun.single]⟩
  · rw [heq] at h
    exact Or.inr ⟨r, List.mem_append_left _ hr, n, hholds, List.mem_singleton.1 h⟩
  · rw [heq] at h
    exact Or.inl ⟨List.mem_singleton.1 h, heq⟩

theorem mapCode_of_mem {n m : Nat} (h : m ∈ mapCode upperExpansions upperRuns n) :
    mapCode upperExpansions upperRuns m = [m] := by
  rcases of_mem_mapCode h with ⟨rfl, hself⟩ | ⟨r, hr, k, hk, rfl⟩
  · exact hself
  · exact mapCode_target hr hk

theorem upper_ascii_self {u : Char} (hu : isAscii u = true) (hlower : u.isLower = false) :
    upper u = [u] := by
  have htable : ∀ n < 0x80, (Char.ofNat n).isLower = false →
      (Char.ofNat n).toUpper = Char.ofNat n := by
    decide
  have hself : u.toUpper = u :=
    of_isAscii (P := fun u => u.isLower = false → u.toUpper = u) htable hu hlower
  rw [upper, if_pos hu, hself]

/-- Each character of an upper case is its own upper case. -/
theorem upper_of_mem_upper {c u : Char} (h : u ∈ upper c) : upper u = [u] := by
  have hlower : u.isLower = false := (of_mem_upper h).1
  by_cases hu : isAscii u = true
  · exact upper_ascii_self hu hlower
  · unfold upper at h
    split at h
    · rename_i hc
      have htable : ∀ n < 0x80, isAscii (Char.ofNat n).toUpper = true := by decide
      rw [List.mem_singleton.1 h] at hu
      exact absurd (of_isAscii (P := fun c => isAscii c.toUpper = true) htable hc) hu
    · rename_i hc
      obtain ⟨m, hm, rfl⟩ := List.mem_map.1 h
      have hcode := ((mapCode_upper hc).2 m hm).toNat_ofNat.1
      rw [upper, if_neg hu, hcode, mapCode_of_mem hm, List.map_singleton]

section Blank

def blankRanges : List (Nat × Nat) :=
  [(9, 13), (0x20, 0x20), (0x85, 0x85), (0xa0, 0xa0), (0x1680, 0x1680), (0x2000, 0x200a),
    (0x2028, 0x2029), (0x202f, 0x202f), (0x205f, 0x205f), (0x3000, 0x3000)]

theorem inRanges_of_isBlank {c : Char} (h : isBlank c = true) : inRanges blankRanges c = true := by
  rw [isBlank, Bool.or_eq_true, Bool.or_eq_true] at h
  unfold blankRanges
  rw [inRanges, List.any_cons, List.any_cons, Bool.or_eq_true, Bool.or_eq_true]
  rcases h with (h | h) | h
  · rw [eq_of_beq h]
    exact Or.inr (Or.inl rfl)
  · exact Or.inl h
  · exact Or.inr (Or.inr (Bool.and_eq_true_iff.1 h).2)

theorem upperTargets_notBlank : ∀ s ∈ upperTargets.map CaseRun.image, ∀ r ∈ blankRanges,
    s.2 < r.1 ∨ r.2 < s.1 := by
  decide +kernel

theorem isBlank_of_mem_upper {c u : Char} (hc : isBlank c = false) (h : u ∈ upper c) :
    isBlank u = false := by
  unfold upper at h
  split at h
  · rename_i hascii
    have htable : ∀ n < 0x80, isBlank (Char.ofNat n) = false →
        isBlank (Char.ofNat n).toUpper = false := by decide
    rw [List.mem_singleton.1 h]
    exact of_isAscii (P := fun c => isBlank c = false → isBlank c.toUpper = false) htable hascii hc
  · rename_i hascii
    obtain ⟨m, hm, rfl⟩ := List.mem_map.1 h
    rcases of_mem_mapCode hm with ⟨rfl, -⟩ | ⟨r, hr, k, hk, rfl⟩
    · rwa [Char.ofNat_toNat]
    · have hcode := ((mapCode_upper hascii).2 _ hm).toNat_ofNat.1
      have himage : inRanges (upperTargets.map CaseRun.image)
          (Char.ofNat (k + r.shift).toNat) = true := by
        obtain ⟨hlow, hhigh⟩ := CaseRun.mem_image hk
        refine List.any_eq_true.2 ⟨r.image, List.mem_map_of_mem hr, ?_⟩
        rw [hcode, decide_eq_true hlow, decide_eq_true hhigh]
        rfl
      have hapart := inRanges_eq_false_of_apart upperTargets_notBlank himage
      rw [← Bool.not_eq_true]
      exact fun hblank => Bool.false_ne_true (hapart.symm.trans (inRanges_of_isBlank hblank))

end Blank

end SchemaModels.Text
