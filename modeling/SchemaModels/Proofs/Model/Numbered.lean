import Mathlib.Order.Bounds.Basic
import SchemaModels.Proofs.Model.Constants
import SchemaModels.Proofs.Name.Identifier

namespace SchemaModels

namespace Text

theorem isAlphanumeric_of_isDigit {c : Char} (h : c.isDigit = true) : isAlphanumeric c = true := by
  have hnine : '9'.toNat = 57 := rfl
  have hbounds := Char.isDigit_iff_toNat.1 h
  have hascii : isAscii c = true := by
    rw [isAscii, decide_eq_true_eq]
    omega
  rw [isAlphanumeric, if_pos hascii, Char.isAlphanum, h, Bool.or_true]

end Text

namespace Constant

open Text

variable {taken : List String} {base name : String}

/-- The name that a base gets when some names are taken: the base itself if it is free, else the
base with the least number from two on that is. -/
inductive IsFreeName (taken : List String) (base : String) : String → Prop
  | own (hfree : base ∉ taken) : IsFreeName taken base base
  | withNumber {n : Nat} (htaken : base ∈ taken)
    (hleast : IsLeast {k | 2 ≤ k ∧ numbered base k ∉ taken} n) :
    IsFreeName taken base (numbered base n)

theorem IsFreeName.of_mem_iff {taken' : List String} (h : IsFreeName taken base name)
    (hmem : ∀ s, s ∈ taken ↔ s ∈ taken') : IsFreeName taken' base name := by
  cases h with
  | own hfree => exact .own (mt (hmem base).2 hfree)
  | withNumber htaken hleast =>
    simp only [hmem] at hleast
    exact .withNumber ((hmem base).1 htaken) hleast

theorem isFreeName_freshName (taken : List String) (base : String) :
    IsFreeName taken base (freshName taken base) := by
  have hfind := find?_candidates taken base
  by_cases hbase : base ∈ taken
  · rw [candidates, List.find?_cons_of_neg (by simpa using hbase), List.find?_map,
      Option.map_eq_some_iff] at hfind
    obtain ⟨n, hn, hname⟩ := hfind
    obtain ⟨hfree, hrange, hbelow⟩ := List.find?_range'_eq_some.1 hn
    rw [← hname]
    refine .withNumber hbase ⟨⟨(List.mem_range'_1.1 hrange).1, by simpa using hfree⟩, ?_⟩
    rintro k ⟨hk, hkfree⟩
    by_contra hlt
    exact hkfree (by simpa using hbelow k hk (Nat.lt_of_not_le hlt))
  · rw [candidates, List.find?_cons_of_pos (by simpa using hbase), Option.some.injEq] at hfind
    rw [← hfind]
    exact .own hbase

/-- The loop that looks for a free name, with the number it tries next and the name at hand: a free
name ends it, and after one that is taken it goes on with the base and the number. -/
inductive Settles (taken : List String) (base : String) : Nat → String → String → Prop
  | free {n : Nat} {name : String} (hfree : name ∉ taken) : Settles taken base n name name
  | next {n : Nat} {name result : String} (htaken : name ∈ taken)
    (hrest : Settles taken base (n + 1) (numbered base n) result) :
    Settles taken base n name result

/-- The loop ends at the name with the least free number, as it passes no free one. -/
theorem IsFreeName.settles (h : IsFreeName taken base name) : Settles taken base 2 base name := by
  cases h with
  | own hfree => exact .free hfree
  | @withNumber n htaken hleast =>
    obtain ⟨⟨htwo, hfree⟩, hbelow⟩ := hleast
    have hloop : ∀ k ≤ n, 2 ≤ k →
        Settles taken base (k + 1) (numbered base k) (numbered base n) := by
      intro k hk
      induction hk using Nat.decreasingInduction with
      | self => exact fun _ => .free hfree
      | of_succ k hkn ih =>
        intro hk
        refine .next ?_ (ih (Nat.le_succ_of_le hk))
        by_contra hkfree
        exact absurd (hbelow ⟨hk, hkfree⟩) (Nat.not_le_of_lt hkn)
    exact .next htaken (hloop 2 htwo le_rfl)

theorem getElem?_namesFrom (type : String) (taken values : List String) (i : Nat) :
    (namesFrom type taken values)[i]? = values[i]?.map fun value =>
      freshName (((namesFrom type taken values).take i).reverse ++ taken)
        (baseName type value) := by
  induction values generalizing taken i with
  | nil => rfl
  | cons value values ih =>
    rw [namesFrom]
    cases i with
    | zero => rfl
    | succ i =>
      rw [List.getElem?_cons_succ, List.getElem?_cons_succ, ih]
      simp

theorem isIdentifier_of_mem_names {type : String} {values : List String}
    (htype : Name.isIdentifier type = true) (h : name ∈ names type values) :
    Name.isIdentifier name = true := by
  have hbase (value : String) : Name.isIdentifier (baseName type value) = true :=
    Name.isIdentifier_append_of_rest htype fun _ => Name.isIdentifierRest_of_mem_clean
  obtain ⟨value, -, rfl | ⟨n, rfl⟩⟩ := of_mem_namesFrom h
  · exact hbase value
  · have hnumber : numbered (baseName type value) n =
        baseName type value ++ String.ofList ('_' :: Nat.toDigits 10 n) := by
      rw [← String.toList_inj, toList_numbered, String.toList_append, String.toList_ofList]
    rw [hnumber]
    refine Name.isIdentifier_append_of_rest (hbase value) (List.forall_mem_cons.2 ⟨rfl, ?_⟩)
    intro c hc
    have hdigit := Nat.isDigit_of_mem_toDigits (by decide) (by decide) hc
    rw [isIdentifierRest, isAlphanumeric_of_isDigit hdigit, Bool.true_or]

/-- The constants of a type have one name for each value, no two equal. Each name is the one that
the loop ends with after the names before it: its base, or else its base with the least number that
makes it differ from those. All are identifiers if the name of the type is one. -/
theorem names_settle (type : String) (values : List String) :
    (names type values).length = values.length ∧ (names type values).Nodup ∧
    (∀ i value, values[i]? = some value → ∃ name, (names type values)[i]? = some name ∧
      Settles ((names type values).take i) (baseName type value) 2 (baseName type value) name ∧
      IsFreeName ((names type values).take i) (baseName type value) name) ∧
    (Name.isIdentifier type = true →
      ∀ name ∈ names type values, Name.isIdentifier name = true) := by
  refine ⟨length_names type values, nodup_names type values, ?_,
    fun htype name => isIdentifier_of_mem_names htype⟩
  intro i value hvalue
  have hname := getElem?_namesFrom type [] values i
  rw [hvalue, Option.map_some, List.append_nil] at hname
  have hfree := (isFreeName_freshName ((names type values).take i).reverse
    (baseName type value)).of_mem_iff fun _ => List.mem_reverse
  exact ⟨_, hname, hfree.settles, hfree⟩

/-- The name that the second value gets is the base of the third. -/
def roleValues : List String := ["a", "a", "a-2", "a"]

theorem roleNames_settle : names "Role" roleValues = ["Rolea", "Rolea_2", "Rolea_2_2", "Rolea_3"] ∧
    Settles ["Rolea", "Rolea_2", "Rolea_2_2"] "Rolea" 2 "Rolea" "Rolea_3" ∧
    IsFreeName ["Rolea", "Rolea_2", "Rolea_2_2"] "Rolea" "Rolea_3" ∧
    Name.isIdentifier "Role" = true ∧ Name.isIdentifier "Rolea_2_2" = true := by
  have hnames : names "Role" roleValues = ["Rolea", "Rolea_2", "Rolea_2_2", "Rolea_3"] := by
    decide +kernel
  have hrole : Name.isIdentifier "Role" = true := by decide +kernel
  obtain ⟨-, -, hfree, hidentifier⟩ := names_settle "Role" roleValues
  rw [hnames] at hfree hidentifier
  obtain ⟨_, ⟨rfl⟩, hsettles, hleast⟩ := hfree 3 "a" rfl
  exact ⟨hnames, hsettles, hleast, hrole, hidentifier hrole _ (by simp)⟩

end Constant

end SchemaModels
