import SchemaModels.Proofs.Name.Upper
import SchemaModels.Proofs.Text.Runs

namespace SchemaModels.Name

open Text

theorem camelChars_append_cons (a b : List Char) :
    camelChars (a ++ '_' :: b) = camelChars a ++ camelChars b := by
  rw [camelChars, splitOn_append_cons, List.flatMap_append]
  rfl

theorem camelChars_eq_flatMap_runs (cs : List Char) :
    camelChars cs = (runs (· != '_') cs).flatMap capitalize := by
  have hsplit : splitWhere (fun c => !(c != '_')) cs = splitOn '_' cs := by
    simp only [bne, Bool.not_not, splitOn]
  rw [runs, hsplit, camelChars]
  induction splitOn '_' cs with
  | nil => rfl
  | cons segment segments ih =>
    cases segment with
    | nil => exact ih
    | cons c rest => exact congrArg (capitalize (c :: rest) ++ ·) ih

theorem capitalize_eq_self_iff {segment : List Char} :
    capitalize segment = segment ↔ ∀ c ∈ segment.head?, upper c = [c] := by
  cases segment with
  | nil => simp [capitalize]
  | cons c rest =>
    rw [capitalize, ← List.singleton_append, List.append_left_inj]
    simp

/-- A name without underscores, whose first character is its own upper case. -/
structure IsCamel (cs : List Char) : Prop where
  underscore_notMem : '_' ∉ cs
  upper_head : ∀ c ∈ cs.head?, upper c = [c]

theorem isCamel_camelChars (cs : List Char) : IsCamel (camelChars cs) where
  underscore_notMem := underscore_notMem_camelChars cs
  upper_head := by
    intro u hu
    rw [head?_camelChars] at hu
    obtain ⟨c, -, hc⟩ := Option.bind_eq_some_iff.1 hu
    exact upper_of_mem_upper (List.mem_of_mem_head? hc)

theorem camelChars_of_notMem {cs : List Char} (h : '_' ∉ cs) : camelChars cs = capitalize cs := by
  rw [camelChars, splitOn_of_notMem h, List.flatMap_singleton]

theorem camelChars_eq_self_iff {cs : List Char} : camelChars cs = cs ↔ IsCamel cs := by
  constructor
  · intro h
    rw [← h]
    exact isCamel_camelChars cs
  · intro h
    rw [camelChars_of_notMem h.underscore_notMem]
    exact capitalize_eq_self_iff.2 h.upper_head

theorem camelChars_eq_of_respaced {a b : List Char} (h : Respaced (· != '_') a b) :
    camelChars a = camelChars b := by
  rw [camelChars_eq_flatMap_runs, camelChars_eq_flatMap_runs, h.runs_eq]

/-- Camel case takes joining by an underscore to joining, underscores more or less at the start, at
the end or next to another do not change it, and it takes every name to one that it leaves as it
is. -/
theorem camelCase_homomorphism (a b s : String) :
    camelCase (a ++ "_" ++ b) = camelCase a ++ camelCase b ∧
    '_' ∉ (camelCase s).toList ∧ camelCase (camelCase s) = camelCase s ∧
    (camelCase s = s ↔ IsCamel s.toList) ∧
    ∀ t : String, Respaced (· != '_') s.toList t.toList → camelCase t = camelCase s := by
  refine ⟨?_, ?_, ?_, ?_, fun t ht => ?_⟩
  · have hjoined : (a ++ "_" ++ b).toList = a.toList ++ '_' :: b.toList := by simp
    rw [← String.toList_inj, toList_camelCase, hjoined, camelChars_append_cons,
      String.toList_append, toList_camelCase, toList_camelCase]
  · rw [toList_camelCase]
    exact underscore_notMem_camelChars s.toList
  · have hfixed := camelChars_eq_self_iff.2 (isCamel_camelChars s.toList)
    rw [← String.toList_inj, toList_camelCase, toList_camelCase, hfixed]
  · rw [← camelChars_eq_self_iff, ← String.toList_inj, toList_camelCase]
  · rw [← String.toList_inj, toList_camelCase, toList_camelCase, camelChars_eq_of_respaced ht]

/-- Upper case gives two characters for the sharp s, and one for the digraph. -/
theorem sharpName_camelCase : camelCase ("\u00dfx" ++ "_" ++ "\u01c6y") = "SSx" ++ "\u01c4y" ∧
    camelCase "SSx\u01c4y" = "SSx\u01c4y" ∧
    Respaced (· != '_') "\u00dfx_\u01c6y".toList "__\u00dfx___\u01c6y_".toList ∧
    camelCase "__\u00dfx___\u01c6y_" = camelCase "\u00dfx_\u01c6y" := by
  have hspaced : Respaced (· != '_') "\u00dfx_\u01c6y".toList "__\u00dfx___\u01c6y_".toList :=
    respaced_iff.2 (by decide +kernel)
  have hfront : camelCase "\u00dfx" = "SSx" := by decide +kernel
  have hback : camelCase "\u01c6y" = "\u01c4y" := by decide +kernel
  obtain ⟨happend, -, -, -, hextra⟩ :=
    camelCase_homomorphism "\u00dfx" "\u01c6y" "\u00dfx_\u01c6y"
  have hcamel : IsCamel "SSx\u01c4y".toList :=
    ⟨by decide, fun c hc => Option.mem_some_iff.1 hc ▸ by decide +kernel⟩
  have hfixed := (camelCase_homomorphism "" "" "SSx\u01c4y").2.2.2.1
  rw [hfront, hback] at happend
  exact ⟨happend, hfixed.2 hcamel, hspaced, hextra _ hspaced⟩

end SchemaModels.Name
