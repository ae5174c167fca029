import Mathlib.Logic.Relation
import SchemaModels.Proofs.Name.Upper

namespace SchemaModels.Name

open Text

/-- Camel case in one pass. The flag tells whether a segment starts here. -/
def camelFrom : Bool → List Char → List Char
  | _, [] => []
  | starts, c :: cs =>
    if c = '_' then camelFrom true cs
    else (if starts then upper c else [c]) ++ camelFrom false cs

theorem camelFrom_of_splitOn {cs piece : List Char} {pieces : List (List Char)}
    (h : splitOn '_' cs = piece :: pieces) :
    camelFrom false cs = piece ++ pieces.flatMap capitalize ∧
      camelFrom true cs = capitalize piece ++ pieces.flatMap capitalize := by
  induction cs generalizing piece pieces with
  | nil =>
    cases h
    exact ⟨rfl, rfl⟩
  | cons c cs ih =>
    obtain ⟨next, later, hsplit⟩ :=
      List.exists_cons_of_ne_nil (splitWhere_ne_nil (· == '_') cs)
    obtain ⟨hinside, hstart⟩ := ih hsplit
    by_cases hc : c = '_'
    · rw [splitOn, splitWhere, if_pos (beq_iff_eq.2 hc), hsplit] at h
      cases h
      simp [camelFrom, hc, hstart, capitalize]
    · rw [splitOn, splitWhere, if_neg (mt beq_iff_eq.1 hc), hsplit] at h
      cases h
      simp [camelFrom, hc, hinside, capitalize]

theorem camelChars_eq_camelFrom (cs : List Char) : camelChars cs = camelFrom true cs := by
  obtain ⟨piece, pieces, hsplit⟩ :=
    List.exists_cons_of_ne_nil (splitWhere_ne_nil (· == '_') cs)
  rw [camelChars, splitOn, hsplit, (camelFrom_of_splitOn hsplit).2, List.flatMap_cons]

def startsBehind : Bool → List Char → Bool
  | starts, [] => starts
  | _, c :: cs => startsBehind (c == '_') cs

theorem camelFrom_append (starts : Bool) (front back : List Char) :
    camelFrom starts (front ++ back) =
      camelFrom starts front ++ camelFrom (startsBehind starts front) back := by
  induction front generalizing starts with
  | nil => rfl
  | cons c front ih =>
    rw [List.cons_append, camelFrom, camelFrom, startsBehind]
    by_cases hc : c = '_'
    · rw [if_pos hc, if_pos hc, ih, beq_iff_eq.2 hc]
    · rw [if_neg hc, if_neg hc, ih, List.append_assoc, beq_eq_false_iff_ne.2 hc]

theorem startsBehind_eq (starts : Bool) (front : List Char) :
    startsBehind starts front = (front.getLast?.map (· == '_')).getD starts := by
  induction front generalizing starts with
  | nil => rfl
  | cons c front ih =>
    rw [startsBehind, ih, List.getLast?_cons]
    cases front.getLast? <;> rfl

theorem startsBehind_of_getLast? {front : List Char} (h : ∀ c ∈ front.getLast?, c = '_') :
    startsBehind true front = true := by
  rw [startsBehind_eq]
  cases hlast : front.getLast? with
  | none => rfl
  | some c => simp [h c hlast]

theorem camelFrom_of_notMem {word : List Char} (h : '_' ∉ word) (back : List Char) :
    camelFrom false (word ++ back) = word ++ camelFrom false back := by
  induction word with
  | nil => rfl
  | cons c word ih =>
    rw [List.mem_cons, not_or] at h
    rw [List.cons_append, camelFrom, if_neg (Ne.symm h.1), ih h.2]
    rfl

theorem camelFrom_upper (c : Char) (back : List Char) :
    camelFrom true (upper c ++ back) = camelFrom true (c :: back) := by
  by_cases hc : c = '_'
  · rw [hc]
    rfl
  · obtain ⟨u, rest, hupper⟩ := List.exists_cons_of_ne_nil (upper_ne_nil c)
    have hno : '_' ∉ u :: rest := hupper ▸ underscore_notMem_upper hc
    rw [List.mem_cons, not_or] at hno
    have hself : upper u = [u] := upper_of_mem_upper (hupper ▸ List.mem_cons_self)
    rw [camelFrom, if_neg hc, if_pos rfl, hupper, List.cons_append, camelFrom,
      if_neg (Ne.symm hno.1), if_pos rfl, hself, camelFrom_of_notMem hno.2]
    rfl

/-- A change of spelling that camel case does not show. -/
inductive Respelling : List Char → List Char → Prop
  /-- The first character of a segment is put in upper case. -/
  | capital {front : List Char} (c : Char) (back : List Char)
      (h : ∀ d ∈ front.getLast?, d = '_') :
      Respelling (front ++ c :: back) (front ++ (upper c ++ back))
  /-- An underscore is left out at the end or before a character that is its own upper case. -/
  | joined (front : List Char) {back : List Char} (h : ∀ c ∈ back.head?, upper c = [c]) :
      Respelling (front ++ '_' :: back) (front ++ back)

theorem camelFrom_of_head {back : List Char} (h : ∀ c ∈ back.head?, upper c = [c])
    (starts : Bool) : camelFrom starts back = camelFrom true back := by
  cases back with
  | nil => rfl
  | cons c back =>
    rw [camelFrom, camelFrom, h c rfl]
    split
    · rfl
    · cases starts <;> rfl

theorem Respelling.camelChars_eq {a b : List Char} (h : Respelling a b) :
    camelChars a = camelChars b := by
  rw [camelChars_eq_camelFrom, camelChars_eq_camelFrom]
  cases h with
  | capital c back hfront =>
    rw [camelFrom_append, camelFrom_append, startsBehind_of_getLast? hfront, camelFrom_upper]
  | joined front hback =>
    rw [camelFrom_append, camelFrom_append, camelFrom, if_pos rfl,
      ← camelFrom_of_head hback (startsBehind true front)]

open Relation (EqvGen)

theorem camelChars_eq_of_eqvGen {a b : List Char} (h : EqvGen Respelling a b) :
    camelChars a = camelChars b :=
  congrArg (Quot.lift camelChars fun _ _ => Respelling.camelChars_eq) (Quot.eqvGen_sound h)

/-- Behind any text, whether in a segment or after an underscore, the rest can be respelled. -/
theorem eqvGen_camelFrom (cs front : List Char) :
    EqvGen Respelling (front ++ cs) (front ++ camelFrom false cs) ∧
      EqvGen Respelling (front ++ '_' :: cs) (front ++ camelFrom true cs) := by
  induction cs generalizing front with
  | nil => exact ⟨.refl _, .rel _ _ (.joined front (by simp))⟩
  | cons c cs ih =>
    by_cases hc : c = '_'
    · subst hc
      have hunderscore : upper '_' = ['_'] := rfl
      have hdouble : Respelling (front ++ '_' :: '_' :: cs) (front ++ '_' :: cs) :=
        .joined front (by simp [hunderscore])
      exact ⟨(ih front).2, .trans _ _ _ (.rel _ _ hdouble) (ih front).2⟩
    · have hinside := (ih (front ++ [c])).1
      have hcapital : Respelling (front ++ '_' :: c :: cs) (front ++ '_' :: (upper c ++ cs)) := by
        have hstep := @Respelling.capital (front ++ ['_']) c cs (by simp)
        simpa using hstep
      have hjoined : Respelling (front ++ '_' :: (upper c ++ cs)) (front ++ (upper c ++ cs)) := by
        apply Respelling.joined
        intro u hu
        rw [List.head?_append_of_ne_nil _ (upper_ne_nil c)] at hu
        exact upper_of_mem_upper (List.mem_of_mem_head? hu)
      have hrest := (ih (front ++ upper c)).1
      simp only [List.append_assoc, List.singleton_append] at hinside hrest
      rw [camelFrom, camelFrom, if_neg hc, if_neg hc, if_pos rfl]
      exact ⟨hinside, .trans _ _ _ (.rel _ _ hcapital) (.trans _ _ _ (.rel _ _ hjoined) hrest)⟩

theorem eqvGen_camelChars (cs : List Char) : EqvGen Respelling cs (camelChars cs) := by
  rw [camelChars_eq_camelFrom]
  cases cs with
  | nil => exact .refl _
  | cons c cs =>
    by_cases hc : c = '_'
    · rw [hc, camelFrom, if_pos rfl]
      exact (eqvGen_camelFrom cs []).2
    · have hcapital : Respelling (c :: cs) (upper c ++ cs) :=
        @Respelling.capital [] c cs (by simp)
      rw [camelFrom, if_neg hc, if_pos rfl]
      exact .trans _ _ _ (.rel _ _ hcapital) (eqvGen_camelFrom cs (upper c)).1

def bare (cs : List Char) : List Char := (cs.filter (· != '_')).flatMap upper

theorem flatMap_upper_upper (c : Char) : (upper c).flatMap upper = upper c := by
  have hself : ∀ u ∈ upper c, upper u = [u] := fun u hu => upper_of_mem_upper hu
  rw [List.flatMap_congr hself, List.flatMap_singleton']

theorem bare_append (a b : List Char) : bare (a ++ b) = bare a ++ bare b := by
  rw [bare, List.filter_append, List.flatMap_append]
  rfl

theorem bare_upper (c : Char) : bare (upper c) = bare [c] := by
  by_cases hc : c = '_'
  · rw [hc]
    rfl
  · have hkeep : ∀ u ∈ upper c, (u != '_') = true := by
      intro u hu
      rw [bne_iff_ne]
      rintro rfl
      exact underscore_notMem_upper hc hu
    rw [bare, List.filter_eq_self.2 hkeep, flatMap_upper_upper, bare,
      List.filter_cons_of_pos (by simpa using hc), List.filter_nil, List.flatMap_singleton]

theorem Respelling.bare_eq {a b : List Char} (h : Respelling a b) : bare a = bare b := by
  cases h with
  | @capital front c back _ =>
    rw [← List.singleton_append, bare_append, bare_append, bare_append, bare_append, bare_upper]
  | joined front _ =>
    rw [← List.singleton_append, bare_append, bare_append, bare_append]
    rfl

theorem bare_eq_of_eqvGen {a b : List Char} (h : EqvGen Respelling a b) : bare a = bare b :=
  congrArg (Quot.lift bare fun _ _ => Respelling.bare_eq) (Quot.eqvGen_sound h)

/-- Changes of spelling lead from one name to the other. -/
def Respells (a b : String) : Prop := EqvGen Respelling a.toList b.toList

theorem camelCase_eq_iff {a b : String} : camelCase a = camelCase b ↔ Respells a b := by
  rw [camelCase, camelCase, String.ofList_inj, Respells]
  refine ⟨fun h => ?_, camelChars_eq_of_eqvGen⟩
  have hb := eqvGen_camelChars b.toList
  rw [← h] at hb
  exact .trans _ _ _ (eqvGen_camelChars a.toList) hb.symm

end SchemaModels.Name
