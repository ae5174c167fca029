import SchemaModels.Ddl.ColumnLine
import SchemaModels.Proofs.Text.Word

namespace SchemaModels.Ddl

open Text

/-- The column of a text whose name and kind are known. -/
def columnOf (text name : List Char) (kind : Kind) : Column where
  name := String.ofList name
  camelCase := Name.camelCase (String.ofList name)
  kind
  default? := (defaultValue? text).map String.ofList
  enumValues := if kind = .enum then (enumValues text).map String.ofList else []
  nullable := !saysNotNull text

/-- A line is a column if its text opens no constraint, its second word is a type, and an enum has
values. -/
theorem readColumn_eq_ok {line : List Char} {c : Column} :
    readColumn line = .ok c ↔ ∃ text name rest raw rest' kind, columnText line = text ∧
      isConstraint text = false ∧ nextRun isWord text = (name, rest) ∧
      nextRun isWord rest = (raw, rest') ∧ raw ≠ [] ∧ columnKind? raw rest' = some kind ∧
      (kind = .enum → enumValues text ≠ []) ∧ c = columnOf text name kind := by
  unfold readColumn
  dsimp only
  constructor
  · intro h
    split at h
    · cases h
    rename_i hconstraint
    split at h
    · cases h
    rename_i hraw
    split at h
    · cases h
    rename_i kind hkind
    generalize hvalues : (if kind = .enum then enumValues (columnText line) else []) = values at h
    split at h
    · cases h
    rename_i hany
    cases h
    refine ⟨_, _, _, _, _, kind, rfl, by simpa using hconstraint, rfl, rfl,
      mt List.isEmpty_iff.2 hraw, hkind, ?_, ?_⟩
    · intro henum hnil
      rw [if_pos henum] at hvalues
      exact hany ⟨henum, List.isEmpty_iff.2 (hvalues ▸ hnil)⟩
    · rw [columnOf, ← hvalues, apply_ite (List.map String.ofList)]
      rfl
  · rintro ⟨text, name, rest, raw, rest', kind, rfl, hconstraint, hfirst, hsecond, hraw, hkind,
      hvalues, rfl⟩
    rw [hfirst, hconstraint]
    dsimp only
    rw [hsecond]
    dsimp only
    rw [List.isEmpty_eq_false_iff.2 hraw, hkind]
    by_cases henum : kind = .enum
    · subst henum
      simp [columnOf, hvalues rfl]
    · simp [columnOf, henum]

/-- The check that a text is the first to fail, with its second word and what is behind that. -/
inductive FailsFirst (text raw rest : List Char) : LineFailure → Prop
  | tableConstraint (h : isConstraint text = true) : FailsFirst text raw rest .tableConstraint
  | unexpectedFormat (hconstraint : isConstraint text = false) (hraw : raw = []) :
    FailsFirst text raw rest .unexpectedFormat
  | unsupportedType (hconstraint : isConstraint text = false) (hraw : raw ≠ [])
    (hkind : columnKind? raw rest = none) :
    FailsFirst text raw rest (.unsupportedType (String.ofList raw))
  | missingEnumValues (hconstraint : isConstraint text = false) (hraw : raw ≠ [])
    (hkind : columnKind? raw rest = some .enum) (hvalues : enumValues text = []) :
    FailsFirst text raw rest .missingEnumValues

theorem readColumn_eq_error {line : List Char} {r : Refusal} :
    readColumn line = .error r ↔ ∃ text name rest raw rest', columnText line = text ∧
      nextRun isWord text = (name, rest) ∧ nextRun isWord rest = (raw, rest') ∧ r.name = name ∧
      FailsFirst text raw rest' r.reason := by
  unfold readColumn
  dsimp only
  constructor
  · intro h
    refine ⟨_, _, _, _, _, rfl, rfl, rfl, ?_⟩
    -- Each check is reached only when those before it have passed.
    split at h
    · rename_i hconstraint
      cases h
      exact ⟨rfl, .tableConstraint hconstraint⟩
    rename_i hconstraint
    rw [Bool.not_eq_true] at hconstraint
    split at h
    · rename_i hraw
      cases h
      exact ⟨rfl, .unexpectedFormat hconstraint (List.isEmpty_iff.1 hraw)⟩
    rename_i hraw
    rw [List.isEmpty_iff] at hraw
    split at h
    · rename_i hkind
      cases h
      exact ⟨rfl, .unsupportedType hconstraint hraw hkind⟩
    rename_i kind hkind
    generalize hvalues : (if kind = .enum then enumValues (columnText line) else []) = values at h
    split at h
    · rename_i hnone
      obtain ⟨rfl, hnil⟩ := hnone
      cases h
      rw [if_pos rfl] at hvalues
      exact ⟨rfl, .missingEnumValues hconstraint hraw hkind
        (hvalues.trans (List.isEmpty_iff.1 hnil))⟩
    · cases h
  · rintro ⟨text, name, rest, raw, rest', rfl, hfirst, hsecond, hname, hfails⟩
    obtain ⟨rname, reason⟩ := r
    dsimp only at hname hfails
    subst hname
    rw [hfirst]
    dsimp only
    rw [hsecond]
    cases hfails with
    | tableConstraint hconstraint => rw [if_pos hconstraint]
    | unexpectedFormat hconstraint hraw => simp [hconstraint, hraw]
    | unsupportedType hconstraint hraw hkind => simp [hconstraint, hraw, hkind]
    | missingEnumValues hconstraint hraw hkind hvalues =>
      simp [hconstraint, hraw, hkind, hvalues]

end SchemaModels.Ddl
