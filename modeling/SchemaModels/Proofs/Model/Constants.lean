import Mathlib.Data.List.Perm.Subperm
import SchemaModels.Model.Constant
import SchemaModels.Proofs.Name.Camel

namespace SchemaModels.Constant

open Text

theorem toList_numbered (base : String) (n : Nat) :
    (numbered base n).toList = base.toList ++ '_' :: Nat.toDigits 10 n := by
  simp [numbered]

theorem numbered_injective (base : String) : Function.Injective (numbered base) := by
  intro m n h
  have hlist := congrArg String.toList h
  rw [toList_numbered, toList_numbered] at hlist
  have hdigits := (List.cons.inj (List.append_cancel_left hlist)).2
  simpa using congrArg (Nat.ofDigitChars 10 · 0) hdigits

def candidates (taken : List String) (base : String) : List String :=
  base :: (List.range' 2 (taken.length + 1)).map (numbered base)

/-- There are more numbers to try than names that are taken. -/
theorem exists_free (taken : List String) (base : String) :
    ∃ name ∈ candidates taken base, name ∉ taken := by
  by_contra hall
  have htaken : (List.range' 2 (taken.length + 1)).map (numbered base) ⊆ taken := by
    intro name hname
    by_contra hfree
    exact hall ⟨name, List.mem_cons_of_mem base hname, hfree⟩
  have hnodup : ((List.range' 2 (taken.length + 1)).map (numbered base)).Nodup :=
    (List.nodup_range' 1).map (numbered_injective base)
  have hlength := (List.subperm_of_subset hnodup htaken).length_le
  simp only [List.length_map, List.length_range'] at hlength
  omega

theorem find?_candidates (taken : List String) (base : String) :
    (candidates taken base).find? (fun name => !taken.contains name) =
      some (freshName taken base) := by
  cases hfind : (candidates taken base).find? fun name => !taken.contains name with
  | none =>
    obtain ⟨name, hmem, hfree⟩ := exists_free taken base
    have hused := List.find?_eq_none.1 hfind name hmem
    simp [hfree] at hused
  | some name =>
    have hname : freshName taken base = (some name).getD base := hfind ▸ rfl
    rw [hname, Option.getD_some]

theorem freshName_eq (taken : List String) (base : String) :
    freshName taken base = base ∨ ∃ n, freshName taken base = numbered base n := by
  have hmem := List.mem_of_find?_eq_some (find?_candidates taken base)
  rcases List.mem_cons.1 hmem with heq | hmem
  · exact Or.inl heq
  · obtain ⟨n, -, heq⟩ := List.mem_map.1 hmem
    exact Or.inr ⟨n, heq.symm⟩

theorem freshName_notMem (taken : List String) (base : String) : freshName taken base ∉ taken := by
  simpa using List.find?_some (find?_candidates taken base)

@[simp] theorem length_namesFrom (type : String) (taken values : List String) :
    (namesFrom type taken values).length = values.length := by
  induction values generalizing taken with
  | nil => rfl
  | cons value values ih => rw [namesFrom, List.length_cons, ih, List.length_cons]

theorem length_names (type : String) (values : List String) :
    (names type values).length = values.length := length_namesFrom type [] values

theorem nodup_namesFrom (type : String) (taken values : List String) :
    (namesFrom type taken values).Nodup ∧ ∀ name ∈ namesFrom type taken values, name ∉ taken := by
  induction values generalizing taken with
  | nil => simp [namesFrom]
  | cons value values ih =>
    obtain ⟨hnodup, hfresh⟩ := ih (freshName taken (baseName type value) :: taken)
    rw [namesFrom, List.nodup_cons, List.forall_mem_cons]
    refine ⟨⟨fun hmem => hfresh _ hmem List.mem_cons_self, hnodup⟩, freshName_notMem _ _, ?_⟩
    exact fun name hname htaken => hfresh name hname (List.mem_cons_of_mem _ htaken)

theorem nodup_names (type : String) (values : List String) : (names type values).Nodup :=
  (nodup_namesFrom type [] values).1

theorem of_mem_namesFrom {type name : String} {taken values : List String}
    (h : name ∈ namesFrom type taken values) : ∃ value ∈ values,
      name = baseName type value ∨ ∃ n, name = numbered (baseName type value) n := by
  induction values generalizing taken with
  | nil => cases h
  | cons value values ih =>
    rcases List.mem_cons.1 h with rfl | hmem
    · exact ⟨value, List.mem_cons_self, freshName_eq taken _⟩
    · obtain ⟨v, hv, hname⟩ := ih hmem
      exact ⟨v, List.mem_cons_of_mem value hv, hname⟩

/-- A name goes on with the characters of its value where that of its type ends. -/
theorem toList_of_mem_names {type name : String} {values : List String}
    (h : name ∈ names type values) : ∃ value ∈ values, ∃ more,
      name.toList = type.toList ++ Name.clean value.toList ++ more ∧
        ∀ c ∈ more, isNameChar c = true := by
  obtain ⟨value, hvalue, rfl | ⟨n, rfl⟩⟩ := of_mem_namesFrom h
  · exact ⟨value, hvalue, [], by simp [baseName]⟩
  · refine ⟨value, hvalue, '_' :: Nat.toDigits 10 n, ?_, ?_⟩
    · rw [toList_numbered, baseName, String.toList_append, String.toList_ofList]
    · intro c hc
      rcases List.mem_cons.1 hc with rfl | hdigit
      · rfl
      · have hc := Nat.isDigit_of_mem_toDigits (by decide) (by decide) hdigit
        simp [isNameChar, Char.isAlphanum, hc]

theorem isSafe_of_mem_names {type name : String} {values : List String} (htype : Name.IsSafe type)
    (h : name ∈ names type values) : Name.IsSafe name := by
  obtain ⟨value, -, more, hname, hmore⟩ := toList_of_mem_names h
  intro c hc
  rw [hname, List.append_assoc, List.mem_append, List.mem_append] at hc
  rcases hc with hc | hc | hc
  · exact htype c hc
  · exact Name.isNameChar_of_mem_clean c hc
  · exact hmore c hc

end SchemaModels.Constant
