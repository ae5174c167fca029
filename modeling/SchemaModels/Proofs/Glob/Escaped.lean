import SchemaModels.Proofs.Glob.Reading

namespace SchemaModels.Glob

open Text (splitOn)

variable {p ts : Pattern} {token : Token} {name : String} {cs rest : List Char}
  {fuel length : Nat} {starts : Bool}

/-- A token for one character alone. -/
inductive Token.IsOnly (c : Char) : Token → Prop
  | char : IsOnly c (.char c)
  | oneOf : IsOnly c (.oneOf [⟨c, c⟩])

/-- A pattern that has a token for each character of a text. -/
def Spells (p : Pattern) (cs : List Char) : Prop := List.Forall₂ (fun t c => t.IsOnly c) p cs

theorem Token.IsOnly.accepts_iff {c a : Char} (h : token.IsOnly c) :
    token.accepts a = true ↔ a = c := by
  cases h with
  | char => rw [Token.accepts, beq_iff_eq, eq_comm]
  | oneOf =>
    simp only [Token.accepts, List.any_cons, List.any_nil, Bool.or_false, Bool.and_eq_true,
      decide_eq_true_eq]
    refine ⟨fun ⟨hge, hle⟩ => Char.le_antisymm hle hge, ?_⟩
    rintro rfl
    exact ⟨Char.le_refl a, Char.le_refl a⟩

theorem Token.IsOnly.accepts_cons {c : Char} (h : token.IsOnly c) (ts : Pattern) (a : Char)
    (cs : List Char) : Glob.accepts (token :: ts) (a :: cs) =
      (token.accepts a && Glob.accepts ts cs) := by
  cases h <;> rfl

theorem Spells.accepts_iff (h : Spells p cs) {text : List Char} :
    accepts p text = true ↔ text = cs := by
  induction h generalizing text with
  | nil => simp [accepts]
  | cons ht _ ih =>
    cases text with
    | nil => cases ht <;> simp [accepts]
    | cons a text => rw [ht.accepts_cons, Bool.and_eq_true, ht.accepts_iff, ih, List.cons.injEq]

theorem Spells.isRecursive_eq_false (h : Spells p cs) : isRecursive p = false := by
  rw [isRecursive, ← Bool.not_eq_true, List.contains_iff_mem]
  intro hmem
  obtain ⟨c, -, hc⟩ := exists_of_forall₂ h.flip hmem
  cases hc

theorem spells_of_literal (h : literal? p = some name) : Spells p name.toList := by
  rw [literal?_eq_some.1 h, Spells, List.forall₂_map_left_iff]
  exact List.forall₂_same.2 fun c _ => .char

def isMeta (c : Char) : Bool := c == '?' || c == '*' || c == '[' || c == ']'

def tokenFor (c : Char) : Token := if isMeta c then .oneOf [⟨c, c⟩] else .char c

def spelled (cs : List Char) : Pattern := cs.map tokenFor

theorem spells_spelled (cs : List Char) : Spells (spelled cs) cs := by
  rw [Spells, spelled, List.forall₂_map_left_iff]
  refine List.forall₂_same.2 fun c _ => ?_
  unfold tokenFor
  split
  · exact .oneOf
  · exact .char

theorem escape_cons (c : Char) (cs : List Char) :
    escape (c :: cs) = (if isMeta c then ['[', c, ']'] else [c]) ++ escape cs := rfl

theorem class?_of_isMeta {c : Char} (hc : isMeta c = true) (rest : List Char) :
    class? (c :: ']' :: rest) = some (.oneOf [⟨c, c⟩], rest) := by
  simp only [isMeta, Bool.or_eq_true, beq_iff_eq] at hc
  rcases hc with ((rfl | rfl) | rfl) | rfl <;> rfl

/-- An escaped text in front of what is read alike wherever it starts. -/
theorem Reads.escape_append (h : ∀ starts, Reads starts rest ts) (starts : Bool)
    (cs : List Char) : Reads starts (escape cs ++ rest) (spelled cs ++ ts) := by
  induction cs generalizing starts with
  | nil => exact h starts
  | cons c cs ih =>
    rw [escape_cons, spelled, List.map_cons, tokenFor]
    split
    · rename_i hmeta
      exact .oneOf (class?_of_isMeta hmeta _) (ih false)
    · rename_i hplain
      refine .char ?_ (ih _)
      simp_all [isMeta]

theorem parse_escape (cs : List Char) : parse (escape cs) = .ok (spelled cs) := by
  have h := Reads.escape_append (fun _ => Reads.done) true cs
  rw [List.append_nil, List.append_nil] at h
  exact parse_eq_ok.2 h

theorem parse_escape_slash (cs : List Char) (h : parse rest = .ok p) :
    parse (escape cs ++ '/' :: rest) = .ok (spelled cs ++ .char '/' :: p) := by
  have hslash (starts : Bool) : Reads starts ('/' :: rest) (.char '/' :: p) :=
    .char (by decide) (parse_eq_ok.1 h)
  exact parse_eq_ok.2 (.escape_append hslash true cs)

theorem slash_mem_escape : '/' ∈ escape cs ↔ '/' ∈ cs := by
  induction cs with
  | nil => rfl
  | cons c cs ih =>
    rw [escape_cons, List.mem_append, ih, List.mem_cons]
    refine or_congr_left ?_
    split <;> simp_all

theorem escape_append (cs cs' : List Char) : escape (cs ++ cs') = escape cs ++ escape cs' :=
  List.flatMap_append

theorem escape_intercalate (pieces : List (List Char)) :
    escape (['/'].intercalate pieces) = ['/'].intercalate (pieces.map escape) := by
  induction pieces with
  | nil => rfl
  | cons piece pieces ih =>
    cases pieces with
    | nil => simp [List.intercalate]
    | cons next pieces =>
      rw [List.intercalate_cons_cons, escape_append, escape_append, ih]
      exact (List.intercalate_cons_cons ..).symm

theorem splitOn_escape (cs : List Char) :
    splitOn '/' (escape cs) = (splitOn '/' cs).map escape := by
  have hpieces : ∀ piece ∈ (splitOn '/' cs).map escape, '/' ∉ piece := by
    intro piece hpiece
    obtain ⟨name, hname, rfl⟩ := List.mem_map.1 hpiece
    exact fun h => Text.notMem_of_mem_splitOn hname (slash_mem_escape.1 h)
  have hne : (splitOn '/' cs).map escape ≠ [] :=
    List.map_eq_nil_iff.not.2 (Text.splitWhere_ne_nil (· == '/') cs)
  rw [← Text.splitOn_intercalate hne hpieces, ← escape_intercalate, Text.intercalate_splitOn]

end SchemaModels.Glob
