import Mathlib.Data.List.Forall2
import SchemaModels.Model.Constant

namespace SchemaModels.Constant

/-- What a character behind a backslash stands for. -/
def escaped? : Char → Option Char
  | '"' => some '"'
  | '\\' => some '\\'
  | 'n' => some '\n'
  | 't' => some '\t'
  | _ => none

/-- The value up to the first quote without a backslash, and the text behind the quote. A line feed
and all escapes but four are refused. -/
def readQuoted? : List Char → Option (List Char × List Char)
  | [] | '\n' :: _ => none
  | '"' :: rest => some ([], rest)
  | '\\' :: e :: rest => do
    let c ← escaped? e
    let (value, behind) ← readQuoted? rest
    return (c :: value, behind)
  | c :: rest => do
    let (value, behind) ← readQuoted? rest
    return (c :: value, behind)

def readLiteral? : List Char → Option (List Char × List Char)
  | '"' :: rest => readQuoted? rest
  | _ => none

/-- How a character of a value may stand in a literal: as it is, or behind a backslash. -/
inductive Written : Char → List Char → Prop
  | plain {c : Char} (hquote : c ≠ '"') (hslash : c ≠ '\\') (hfeed : c ≠ '\n') : Written c [c]
  | escape {c e : Char} (h : escaped? e = some c) : Written c ['\\', e]

theorem written_escape (c : Char) : Written c (escape c) := by
  unfold escape
  split
  iterate 4 · exact .escape rfl
  · rename_i hquote hslash hfeed _
    exact .plain hquote hslash hfeed

theorem Written.readQuoted?_append {c : Char} {piece cs value behind : List Char}
    (hpiece : Written c piece) (h : readQuoted? cs = some (value, behind)) :
    readQuoted? (piece ++ cs) = some (c :: value, behind) := by
  cases hpiece with
  | plain hquote hslash hfeed =>
    rw [List.singleton_append, readQuoted?, h]
    · rfl
    · exact hfeed
    · exact hquote
    · exact fun _ _ hc _ => hslash hc
  | escape he => simp [readQuoted?, he, h]

theorem exists_of_readQuoted? {cs value behind : List Char}
    (h : readQuoted? cs = some (value, behind)) :
    ∃ pieces, List.Forall₂ Written value pieces ∧ cs = pieces.flatten ++ '"' :: behind := by
  fun_induction readQuoted? cs generalizing value with
  | case1 => cases h
  | case2 => cases h
  | case3 rest =>
    cases h
    exact ⟨[], .nil, rfl⟩
  | case4 e rest ih =>
    obtain ⟨c, hc, h⟩ := Option.bind_eq_some_iff.1 h
    obtain ⟨⟨inner, rest'⟩, hread, h⟩ := Option.bind_eq_some_iff.1 h
    cases h
    obtain ⟨pieces, hpieces, rfl⟩ := ih hread
    exact ⟨['\\', e] :: pieces, .cons (.escape hc) hpieces, rfl⟩
  | case5 c rest hfeed hquote hslash ih =>
    obtain ⟨⟨inner, rest'⟩, hread, h⟩ := Option.bind_eq_some_iff.1 h
    cases h
    -- A backslash with nothing behind it is no character of a literal.
    have hplain : c ≠ '\\' := by
      rintro rfl
      cases rest with
      | nil => cases hread
      | cons e rest => exact hslash e rest rfl rfl
    obtain ⟨pieces, hpieces, rfl⟩ := ih hread
    exact ⟨[c] :: pieces, .cons (.plain hquote hplain hfeed) hpieces, rfl⟩

/-- The reader takes what the rule for single characters allows, and nothing else. -/
theorem readQuoted?_eq_some_iff {cs value behind : List Char} :
    readQuoted? cs = some (value, behind) ↔
      ∃ pieces, List.Forall₂ Written value pieces ∧ cs = pieces.flatten ++ '"' :: behind := by
  refine ⟨exists_of_readQuoted?, ?_⟩
  rintro ⟨pieces, hpieces, rfl⟩
  induction hpieces with
  | nil => rfl
  | cons hpiece _ ih =>
    rw [List.flatten_cons, List.append_assoc]
    exact hpiece.readQuoted?_append ih

theorem readLiteral?_literalChars (value behind : List Char) :
    readLiteral? (literalChars value ++ behind) = some (value, behind) := by
  rw [literalChars, List.append_assoc, List.cons_append, readLiteral?]
  refine readQuoted?_eq_some_iff.2 ⟨value.map escape, ?_, rfl⟩
  rw [List.forall₂_map_right_iff, List.forall₂_same]
  exact fun c _ => written_escape c

theorem readLiteral?_literal (value : String) :
    readLiteral? (literal value).toList = some (value.toList, []) := by
  have hread := readLiteral?_literalChars value.toList []
  rwa [List.append_nil, ← String.toList_ofList (l := literalChars value.toList)] at hread

/-- A value is read back from its literal, whatever follows, and what follows is left as it is. -/
theorem literal_reads_back (value behind : String) :
    readLiteral? (literal value ++ behind).toList = some (value.toList, behind.toList) := by
  rw [literal, String.toList_append, String.toList_ofList]
  exact readLiteral?_literalChars value.toList behind.toList

/-- Backslashes in front of quotes, also of the quote that ends the literal. -/
example : readLiteral? "\"a\\\\\\\"\\\\\" = \"\\n\"".toList =
    some ("a\\\"\\".toList, " = \"\\n\"".toList) := by
  decide

end SchemaModels.Constant
