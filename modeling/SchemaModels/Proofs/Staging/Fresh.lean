import Mathlib.Data.List.Perm.Subperm
import Mathlib.Data.List.Nodup
import SchemaModels.Proofs.Disk.Change
import SchemaModels.Staging

namespace SchemaModels.Staging

theorem tempName_injective : Function.Injective tempName := by
  intro m n h
  have hlist := congrArg String.toList h
  simp only [tempName, String.toList_append, String.toList_ofList] at hlist
  -- Leading zeros do not change what the digits say.
  have hvalue := congrArg (Nat.ofDigitChars 10 · 0) (List.append_cancel_left hlist)
  simpa [Nat.ofDigitChars_append, Nat.ofDigitChars_replicate_zero] using hvalue

theorem getLast?_tempName (n : Nat) : ∃ c, (tempName n).toList.getLast? = some c ∧ c.isDigit := by
  have hne : Nat.toDigits 10 n ≠ [] := Nat.toDigits_ne_nil
  refine ⟨(Nat.toDigits 10 n).getLast hne, ?_, ?_⟩
  · simp only [tempName, String.toList_append, String.toList_ofList, List.getLast?_append,
      List.getLast?_eq_some_getLast hne, Option.some_or]
  · exact Nat.isDigit_of_mem_toDigits (by decide) (by decide) (List.getLast_mem hne)

theorem tempName_freshNumber_notMem (names : List String) (n : Nat) :
    tempName (freshNumber names n) ∉ names := by
  unfold freshNumber
  cases hfind : ((List.range (names.length + 1)).map (n + ·)).find?
      fun k => !names.contains (tempName k) with
  | some k => simpa using List.find?_some hfind
  | none =>
    -- All candidates would be taken, and there are more of them than names.
    have htaken : ((List.range (names.length + 1)).map (n + ·)).map tempName ⊆ names := by
      intro name hname
      obtain ⟨k, hk, rfl⟩ := List.mem_map.1 hname
      simpa using List.find?_eq_none.1 hfind k hk
    have hnodup : (((List.range (names.length + 1)).map (n + ·)).map tempName).Nodup :=
      (List.nodup_range.map fun _ _ => Nat.add_left_cancel).map tempName_injective
    have hlen := (List.subperm_of_subset hnodup htaken).length_le
    simp only [List.length_map, List.length_range] at hlen
    omega

end SchemaModels.Staging
