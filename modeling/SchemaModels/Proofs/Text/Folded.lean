import Mathlib.Data.List.Forall2
import SchemaModels.Proofs.Text.Parts
import SchemaModels.Text.Case

namespace SchemaModels.Text

/-- One character, or the two cases of one ASCII letter, whose codes are 32 apart. -/
def SameLetter (a b : Char) : Prop :=
  a = b ∨ a.isAlpha = true ∧ b.isAlpha = true ∧ (a.toNat + 32 = b.toNat ∨ b.toNat + 32 = a.toNat)

instance : DecidableRel SameLetter := fun _ _ => inferInstanceAs (Decidable (_ ∨ _))

def SameName (s t : String) : Prop := List.Forall₂ SameLetter s.toList t.toList

instance : DecidableRel SameName := fun _ _ => inferInstanceAs (Decidable (List.Forall₂ _ _ _))

theorem toLower_of_not_isUpper {c : Char} (h : c.isUpper = false) : c.toLower = c := by
  unfold Char.toLower
  split
  · rename_i hrange
    have hupper : c.isUpper = true := decide_eq_true hrange
    rw [h] at hupper
    cases hupper
  · rfl

theorem isBlank_toLower (c : Char) : isBlank c.toLower = isBlank c := by
  cases hupper : c.isUpper with
  | false => rw [toLower_of_not_isUpper hupper]
  | true =>
    obtain ⟨hfirst, hlast⟩ := isUpper_iff.1 hupper
    have hcodes : ∀ n < 91, 65 ≤ n →
        isBlank (Char.ofNat n).toLower = isBlank (Char.ofNat n) := by decide +kernel
    exact of_codes (P := fun c => isBlank c.toLower = isBlank c) hcodes hfirst
      (Nat.lt_succ_of_le hlast)

theorem isAlpha_of_isAlpha_toLower {c : Char} (h : c.toLower.isAlpha = true) :
    c.isAlpha = true := by
  cases hupper : c.isUpper with
  | true => exact isAlpha_iff.2 (.inl hupper)
  | false => rwa [toLower_of_not_isUpper hupper] at h

theorem toNat_toLower (c : Char) :
    c.toLower.toNat = if 65 ≤ c.toNat ∧ c.toNat ≤ 90 then c.toNat + 32 else c.toNat := by
  split
  · rename_i hupper
    have hcodes : ∀ n < 91, 65 ≤ n →
        (Char.ofNat n).toLower.toNat = (Char.ofNat n).toNat + 32 := by decide +kernel
    exact of_codes (P := fun c => c.toLower.toNat = c.toNat + 32) hcodes hupper.1
      (Nat.lt_succ_of_le hupper.2)
  · rename_i hupper
    rw [toLower_of_not_isUpper (Bool.eq_false_iff.2 (mt isUpper_iff.1 hupper))]

theorem toLower_eq_iff {a b : Char} : a.toLower = b.toLower ↔ SameLetter a b := by
  rw [SameLetter, ← Char.toNat_inj, ← Char.toNat_inj, toNat_toLower, toNat_toLower]
  simp only [isAlpha_iff, isUpper_iff, isLower_iff]
  -- Whether either letter is a capital.
  split <;> split <;> omega

theorem map_toLower_eq_iff {as bs : List Char} :
    as.map Char.toLower = bs.map Char.toLower ↔ List.Forall₂ SameLetter as bs := by
  rw [← List.forall₂_eq_eq_eq, List.forall₂_map_left_iff, List.forall₂_map_right_iff]
  simp only [toLower_eq_iff]

theorem map_map_toLower_eq_iff {as bs : List (List Char)} :
    as.map (List.map Char.toLower) = bs.map (List.map Char.toLower) ↔
      List.Forall₂ (List.Forall₂ SameLetter) as bs := by
  rw [← List.forall₂_eq_eq_eq, List.forall₂_map_left_iff, List.forall₂_map_right_iff]
  simp only [map_toLower_eq_iff]

theorem foldAscii_eq_iff {s t : String} : foldAscii s = foldAscii t ↔ SameName s t := by
  rw [foldAscii_eq_ofList, foldAscii_eq_ofList, String.ofList_inj, map_toLower_eq_iff, SameName]

/-- The Kelvin sign has the letter k as its lower case, but is another letter. -/
example : SameName "TASKS" "tasks" ∧ ¬ SameName "TAS\u212aS" "tasks" := by decide +kernel

end SchemaModels.Text
