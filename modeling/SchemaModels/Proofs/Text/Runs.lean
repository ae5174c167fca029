import Mathlib.Logic.Relation
import SchemaModels.Proofs.Text.Parts

namespace SchemaModels.Text

variable {p : Char → Bool}

theorem runs_append_cons {sep : Char} (hsep : p sep = false) (front back : List Char) :
    runs p (front ++ sep :: back) = runs p front ++ runs p back := by
  rw [runs, splitWhere_append_cons _ front back (by simp [hsep]), List.filter_append]
  rfl

theorem runs_nil : runs p [] = [] := rfl

theorem runs_of_forall {run : List Char} (hne : run ≠ []) (h : ∀ c ∈ run, p c = true) :
    runs p run = [run] := by
  rw [runs, splitWhere_of_forall_not (by simpa using h),
    List.filter_cons_of_pos (by simpa using hne), List.filter_nil]

theorem runs_append_of_not {front : List Char} (h : ∀ c ∈ front, p c = false) (back : List Char) :
    runs p (front ++ back) = runs p back := by
  induction front with
  | nil => rfl
  | cons c front ih =>
    rw [List.forall_mem_cons] at h
    have happend := runs_append_cons h.1 [] (front ++ back)
    rw [runs_nil, List.nil_append, List.nil_append] at happend
    rw [List.cons_append, happend, ih h.2]

theorem runs_append {run back : List Char} (hne : run ≠ []) (hrun : ∀ c ∈ run, p c = true)
    (hback : ∀ c ∈ back.head?, p c = false) : runs p (run ++ back) = run :: runs p back := by
  cases back with
  | nil =>
    rw [List.append_nil, runs_of_forall hne hrun]
    rfl
  | cons d back =>
    have hd : ∀ c ∈ [d], p c = false := List.forall_mem_singleton.2 (hback d rfl)
    have hbehind : runs p (d :: back) = runs p back := runs_append_of_not hd back
    rw [runs_append_cons (hback d rfl), runs_of_forall hne hrun, hbehind]
    rfl

theorem runs_eq_cons {cs : List Char} (hne : (nextRun p cs).1 ≠ []) :
    runs p cs = (nextRun p cs).1 :: runs p (nextRun p cs).2 := by
  obtain ⟨front, hcs, hfront, hrun, hback⟩ := exists_append_nextRun p cs
  calc runs p cs
      = runs p (front ++ ((nextRun p cs).1 ++ (nextRun p cs).2)) := congrArg (runs p) hcs
    _ = runs p ((nextRun p cs).1 ++ (nextRun p cs).2) := runs_append_of_not hfront _
    _ = (nextRun p cs).1 :: runs p (nextRun p cs).2 := runs_append hne hrun hback

theorem forall_not_of_runs_eq_nil {cs : List Char} (h : runs p cs = []) :
    ∀ c ∈ cs, p c = false := by
  apply forall_of_nextRun_eq_nil
  by_contra hne
  rw [runs_eq_cons hne] at h
  cases h

theorem exists_of_runs_eq_singleton {cs run : List Char} (h : runs p cs = [run]) :
    ∃ front back, cs = front ++ (run ++ back) ∧ (∀ c ∈ front, p c = false) ∧ run ≠ [] ∧
      (∀ c ∈ run, p c = true) ∧ ∀ c ∈ back, p c = false := by
  have hne : (nextRun p cs).1 ≠ [] := by
    intro hnil
    rw [← List.append_nil cs, runs_append_of_not (forall_of_nextRun_eq_nil hnil)] at h
    cases h
  obtain ⟨front, hcs, hfront, hrun, -⟩ := exists_append_nextRun p cs
  rw [runs_eq_cons hne, List.cons_eq_cons] at h
  obtain ⟨rfl, hback⟩ := h
  exact ⟨front, _, hcs, hfront, hne, hrun, forall_not_of_runs_eq_nil hback⟩

theorem runs_cons_of_not {c : Char} (hc : p c = false) (cs : List Char) :
    runs p (c :: cs) = runs p cs := runs_append_of_not (List.forall_mem_singleton.2 hc) cs

theorem splitWhere_map {q : Char → Bool} {f : Char → Char} (hf : ∀ c, q (f c) = q c)
    (cs : List Char) : splitWhere q (cs.map f) = (splitWhere q cs).map (List.map f) := by
  induction cs with
  | nil => rfl
  | cons c cs ih =>
    rw [List.map_cons, splitWhere, splitWhere, hf, ih]
    split
    · rfl
    · cases splitWhere q cs <;> rfl

theorem runs_map {f : Char → Char} (hf : ∀ c, p (f c) = p c) (cs : List Char) :
    runs p (cs.map f) = (runs p cs).map (List.map f) := by
  rw [runs, splitWhere_map fun c => by rw [hf], List.filter_map, runs]
  congr 2
  funext piece
  simp

/-- One separator more, at a place where it parts nothing: in front, at the end, or beside another
separator. -/
inductive ExtraSeparator (p : Char → Bool) : List Char → List Char → Prop
  | start {c : Char} (hc : p c = false) (cs : List Char) : ExtraSeparator p cs (c :: cs)
  | finish {c : Char} (hc : p c = false) (cs : List Char) : ExtraSeparator p cs (cs ++ [c])
  | before {c d : Char} (hc : p c = false) (hd : p d = false) (front back : List Char) :
      ExtraSeparator p (front ++ d :: back) (front ++ c :: d :: back)
  | behind {c d : Char} (hc : p c = false) (hd : p d = false) (front back : List Char) :
      ExtraSeparator p (front ++ d :: back) (front ++ d :: c :: back)

theorem ExtraSeparator.runs_eq {a b : List Char} (h : ExtraSeparator p a b) :
    runs p a = runs p b := by
  cases h with
  | start hc => rw [runs_cons_of_not hc]
  | finish hc => rw [runs_append_cons hc, runs_nil, List.append_nil]
  | before hc hd front back =>
    rw [runs_append_cons hd, runs_append_cons hc, runs_cons_of_not hd]
  | behind hc hd front back =>
    rw [runs_append_cons hd, runs_append_cons hd, runs_cons_of_not hc]

open Relation (EqvGen)

/-- Separators that part nothing are put in and left out. -/
def Respaced (p : Char → Bool) : List Char → List Char → Prop := EqvGen (ExtraSeparator p)

theorem Respaced.runs_eq {a b : List Char} (h : Respaced p a b) : runs p a = runs p b :=
  congrArg (Quot.lift (runs p) fun _ _ => ExtraSeparator.runs_eq) (Quot.eqvGen_sound h)

theorem Respaced.append_cons {a b : List Char} (h : Respaced p a b) {d : Char} (hd : p d = false)
    (front : List Char) : Respaced p (front ++ d :: a) (front ++ d :: b) := by
  induction h with
  | rel cs _ hextra =>
    cases hextra with
    | start hc => exact .rel _ _ (.behind hc hd front cs)
    | finish hc =>
      have hlast := ExtraSeparator.finish hc (front ++ d :: cs)
      rw [List.append_assoc] at hlast
      exact .rel _ _ hlast
    | @before c e hc he inner back =>
      have hstep := ExtraSeparator.before hc he (front ++ d :: inner) back
      rw [List.append_assoc, List.append_assoc] at hstep
      exact .rel _ _ hstep
    | @behind c e hc he inner back =>
      have hstep := ExtraSeparator.behind hc he (front ++ d :: inner) back
      rw [List.append_assoc, List.append_assoc] at hstep
      exact .rel _ _ hstep
  | refl => exact .refl _
  | symm _ _ _ ih => exact .symm _ _ ih
  | trans _ _ _ _ _ ih ih' => exact .trans _ _ _ ih ih'

theorem respaced_append_of_not {front : List Char} (h : ∀ c ∈ front, p c = false)
    (back : List Char) : Respaced p (front ++ back) back := by
  induction front with
  | nil => exact .refl _
  | cons c front ih =>
    rw [List.forall_mem_cons] at h
    exact .trans _ _ _ (.symm _ _ (.rel _ _ (.start h.1 _))) (ih h.2)

theorem respaced_exchange {c d : Char} (hc : p c = false) (hd : p d = false)
    (front back : List Char) : Respaced p (front ++ d :: back) (front ++ c :: back) :=
  .trans _ _ _ (.rel _ _ (.before hc hd front back))
    (.symm _ _ (.rel _ _ (.behind hd hc front back)))

theorem respaced_intercalate_cons {sep : Char} (hsep : p sep = false) (piece : List Char)
    (pieces : List (List Char)) : Respaced p (piece ++ sep :: [sep].intercalate pieces)
      ([sep].intercalate (piece :: pieces)) := by
  cases pieces with
  | nil =>
    have hlast : Respaced p (piece ++ [sep]) piece := .symm _ _ (.rel _ _ (.finish hsep piece))
    simpa [List.intercalate] using hlast
  | cons next pieces =>
    rw [List.intercalate_cons_cons, List.append_assoc]
    exact .refl _

/-- Any text can be respaced to its runs with the same separator between any two. -/
theorem respaced_intercalate {sep : Char} (hsep : p sep = false) (cs : List Char) :
    Respaced p cs ([sep].intercalate (runs p cs)) := by
  obtain ⟨front, hcs, hfront, hrun, hback⟩ := exists_append_nextRun p cs
  by_cases hne : (nextRun p cs).1 = []
  · have hnone := forall_of_nextRun_eq_nil hne
    have hruns := runs_append_of_not hnone []
    have hdrop := respaced_append_of_not hnone []
    rw [List.append_nil] at hruns hdrop
    rwa [hruns, runs_nil]
  · have hstart : Respaced p cs ((nextRun p cs).1 ++ (nextRun p cs).2) := by
      have hdrop := respaced_append_of_not hfront ((nextRun p cs).1 ++ (nextRun p cs).2)
      rwa [← hcs] at hdrop
    rw [runs_eq_cons hne]
    cases hrest : (nextRun p cs).2 with
    | nil =>
      rw [hrest, List.append_nil] at hstart
      simpa [runs_nil, List.intercalate] using hstart
    | cons d rest =>
      rw [hrest] at hstart hback
      have hd : p d = false := hback d rfl
      have hlength : rest.length < cs.length := by
        rw [hcs, hrest]
        simp only [List.length_append, List.length_cons]
        omega
      have hbehind := (respaced_intercalate hsep rest).append_cons hd (nextRun p cs).1
      rw [runs_cons_of_not hd]
      exact .trans _ _ _ hstart (.trans _ _ _ hbehind (.trans _ _ _
        (respaced_exchange hsep hd _ _) (respaced_intercalate_cons hsep _ _)))
termination_by cs.length

/-- Two texts have the same runs exactly if one can be respaced to the other. -/
theorem respaced_iff {a b : List Char} : Respaced p a b ↔ runs p a = runs p b := by
  refine ⟨Respaced.runs_eq, fun h => ?_⟩
  by_cases hsep : ∃ sep, p sep = false
  · obtain ⟨sep, hsep⟩ := hsep
    have hb := respaced_intercalate hsep b
    rw [← h] at hb
    exact .trans _ _ _ (respaced_intercalate hsep a) (.symm _ _ hb)
  · -- Without separators a text is its own run.
    have hflatten (cs : List Char) : (runs p cs).flatten = cs := by
      by_cases hne : cs = []
      · rw [hne]
        rfl
      · rw [runs_of_forall hne fun c _ => by simpa using not_exists.1 hsep c]
        simp
    rw [← hflatten a, h, hflatten b]
    exact .refl _

end SchemaModels.Text
