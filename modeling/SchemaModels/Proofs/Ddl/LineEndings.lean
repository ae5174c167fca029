import SchemaModels.Proofs.Ddl.Clause
import SchemaModels.Proofs.Text.Utf8

namespace SchemaModels.Ddl

open Text

/-- A text with a carriage return in front of every line feed. -/
def withReturns (text : List Char) : List Char :=
  text.flatMap fun c => if c = '\n' then ['\r', '\n'] else [c]

theorem withReturns_feed (text : List Char) :
    withReturns ('\n' :: text) = '\r' :: '\n' :: withReturns text := rfl

theorem withReturns_cons {c : Char} (hc : c ≠ '\n') (text : List Char) :
    withReturns (c :: text) = c :: withReturns text := by
  rw [withReturns, List.flatMap_cons, if_neg hc]
  rfl

theorem withReturns_append (front back : List Char) :
    withReturns (front ++ back) = withReturns front ++ withReturns back := List.flatMap_append

theorem withReturns_of_notMem {text : List Char} (h : '\n' ∉ text) : withReturns text = text := by
  induction text with
  | nil => rfl
  | cons c text ih =>
    rw [List.mem_cons, not_or] at h
    rw [withReturns_cons (Ne.symm h.1), ih h.2]

theorem lines_withReturns {text : List Char} (h : '\r' ∉ text) :
    lines (withReturns text) = lines text := by
  induction text using linesInduction with
  | last text hfeed => rw [withReturns_of_notMem hfeed]
  | feed line rest hline ih =>
    rw [List.mem_append, List.mem_cons, not_or, not_or] at h
    have hfeed : '\n' ∉ line ++ ['\r'] := by simp [hline]
    have hlast : line.getLast? ≠ some '\r' := fun hmem => h.1 (List.mem_of_getLast? hmem)
    have hdrop : dropReturn (line ++ ['\r']) = dropReturn line := by
      rw [dropReturn, List.getLast?_concat, if_pos rfl, List.dropLast_concat, dropReturn,
        if_neg hlast]
    have hsplit :
        withReturns (line ++ '\n' :: rest) = line ++ ['\r'] ++ '\n' :: withReturns rest := by
      rw [withReturns_append, withReturns_of_notMem hline, withReturns_feed]
      simp
    rw [hsplit, lines_append_feed hfeed, lines_append_feed hline, hdrop, ih h.2.2]

/-- A reader of the front of a text that goes over carriage returns with their line feeds. -/
def SkipsReturns (reader : List Char → Option (List Char)) : Prop :=
  ∀ cs, reader (withReturns cs) = (reader cs).map withReturns

theorem SkipsReturns.bind {reader next : List Char → Option (List Char)}
    (h : SkipsReturns reader) (hnext : SkipsReturns next) :
    SkipsReturns fun cs => (reader cs).bind next := by
  intro cs
  dsimp only
  rw [h cs]
  cases reader cs with
  | none => rfl
  | some rest => exact hnext rest

/-- Neither a return nor a feed is a letter in any case. -/
theorem afterLetters_withReturns {ks : List Char} (h : ∀ k ∈ ks, k.isAlpha = true)
    (cs : List Char) :
    afterLetters ks (withReturns cs) = (afterLetters ks cs).map withReturns := by
  fun_induction afterLetters ks cs with
  | case1 => rfl
  | case2 k ks c cs hfolds ih =>
    rw [List.forall_mem_cons] at h
    have hc : c ≠ '\n' := by
      rintro rfl
      exact absurd (isWord_of_folds h.1 hfolds) (by decide)
    rw [withReturns_cons hc, afterLetters, if_pos hfolds, ih h.2]
  | case3 k ks c cs hfolds =>
    by_cases hc : c = '\n'
    · have hreturn : ¬ folds k '\r' = true := by
        intro hfolds'
        exact absurd (isWord_of_folds (h k List.mem_cons_self) hfolds') (by decide)
      rw [hc, withReturns_feed, afterLetters, if_neg hreturn]
      rfl
    · rw [withReturns_cons hc, afterLetters, if_neg hfolds]
      rfl
  | case4 => rfl

theorem skipsReturns_afterKeyword {keyword : String} (h : IsKeyword keyword) :
    SkipsReturns (afterKeyword keyword) := afterLetters_withReturns h.isAlpha

theorem dropWhile_isBlank_withReturns (cs : List Char) :
    (withReturns cs).dropWhile isBlank = withReturns (cs.dropWhile isBlank) := by
  induction cs with
  | nil => rfl
  | cons c cs ih =>
    by_cases hc : c = '\n'
    · have hreturn : isBlank '\r' = true := by decide
      have hfeed : isBlank '\n' = true := by decide
      rw [hc, withReturns_feed, List.dropWhile_cons_of_pos hreturn,
        List.dropWhile_cons_of_pos hfeed, List.dropWhile_cons_of_pos hfeed, ih]
    · rw [withReturns_cons hc, List.dropWhile_cons, List.dropWhile_cons, ih]
      split
      · rfl
      · rw [withReturns_cons hc]

theorem skipsReturns_afterBlanks : SkipsReturns afterBlanks := by
  intro cs
  cases cs with
  | nil => rfl
  | cons c cs =>
    by_cases hc : c = '\n'
    · have hreturn : isBlank '\r' = true := by decide
      have hfeed : isBlank '\n' = true := by decide
      rw [hc, withReturns_feed, afterBlanks, if_pos hreturn, afterBlanks, if_pos hfeed,
        List.dropWhile_cons_of_pos hfeed, dropWhile_isBlank_withReturns]
      rfl
    · rw [withReturns_cons hc, afterBlanks, afterBlanks]
      split
      · rw [dropWhile_isBlank_withReturns]
        rfl
      · rfl

theorem skipsReturns_afterPhrase {first second : String} (hfirst : IsKeyword first)
    (hsecond : IsKeyword second) : SkipsReturns (afterPhrase first second) :=
  (skipsReturns_afterKeyword hfirst).bind
    (skipsReturns_afterBlanks.bind (skipsReturns_afterKeyword hsecond))

theorem skipsReturns_afterIfNotExists : SkipsReturns afterIfNotExists :=
  (skipsReturns_afterPhrase (by decide +kernel) (by decide +kernel)).bind
    (skipsReturns_afterBlanks.bind
      ((skipsReturns_afterKeyword (by decide +kernel)).bind skipsReturns_afterBlanks))

theorem takeWhile_isWord_withReturns (cs : List Char) :
    (withReturns cs).takeWhile isWord = cs.takeWhile isWord := by
  induction cs with
  | nil => rfl
  | cons c cs ih =>
    by_cases hc : c = '\n'
    · rw [hc]
      rfl
    · rw [withReturns_cons hc, List.takeWhile_cons, List.takeWhile_cons, ih]

theorem quotedName?_withReturns (cs : List Char) :
    quotedName? (withReturns cs) = quotedName? cs := by
  cases cs with
  | nil => rfl
  | cons c cs =>
    by_cases hc : c = '\n'
    · rw [hc]
      rfl
    · rw [withReturns_cons hc, quotedName?_cons, quotedName?_cons]
      split
      · rw [frontWord?, frontWord?, takeWhile_isWord_withReturns]
      · rw [← withReturns_cons hc, frontWord?, frontWord?, takeWhile_isWord_withReturns]

theorem clauseName?_withReturns (cs : List Char) :
    clauseName? (withReturns cs) = clauseName? cs := by
  have hwords : (afterPhrase "create" "table" (withReturns cs)).bind afterBlanks =
      ((afterPhrase "create" "table" cs).bind afterBlanks).map withReturns :=
    (skipsReturns_afterPhrase (by decide +kernel) (by decide +kernel)).bind
      skipsReturns_afterBlanks cs
  have hname (rest : List Char) :
      ((afterIfNotExists (withReturns rest)).bind quotedName? <|> quotedName? (withReturns rest)) =
        ((afterIfNotExists rest).bind quotedName? <|> quotedName? rest) := by
    rw [skipsReturns_afterIfNotExists, quotedName?_withReturns, Option.bind_map,
      show quotedName? ∘ withReturns = quotedName? from funext quotedName?_withReturns]
  rw [clauseName?_eq_bind, clauseName?_eq_bind, hwords, Option.bind_map]
  exact congrArg _ (funext hname)

theorem tableNameChars?_withReturns (text : List Char) :
    tableNameChars? (withReturns text) = tableNameChars? text := by
  unfold tableNameChars?
  induction text with
  | nil => rfl
  | cons c text ih =>
    by_cases hc : c = '\n'
    · -- No clause starts with a return or a feed.
      have hreturn (cs : List Char) : clauseName? ('\r' :: cs) = none := rfl
      have hfeed (cs : List Char) : clauseName? ('\n' :: cs) = none := rfl
      rw [hc, withReturns_feed, search, search, search, ih, hreturn, hfeed, hfeed]
      rfl
    · rw [withReturns_cons hc, search, search, ih, ← withReturns_cons hc, clauseName?_withReturns]

/-- The table of a text, or that there is none, does not depend on how its lines end. -/
theorem tableOfBytes?_withReturns {text : List Char} (h : '\r' ∉ text) :
    tableOfBytes? (encode (withReturns text)) = tableOfBytes? (encode text) := by
  simp only [tableOfBytes?, decodeLossy_encode, tableOfText?, tableNameChars?_withReturns, columns,
    failures, lines_withReturns h]

def wrappedClause : List Char :=
  "CREATE TABLE\nIF NOT EXISTS\n`jobs` (\n  state ENUM('new', 'done') DEFAULT new\n\n)".toList

def wrappedTable : Table where
  names := .ofText "jobs"
  columns := [⟨"state", "State", .enum, some "new", ["new", "done"], true⟩]
  failures := [⟨"", "", 6, .unexpectedFormat⟩]
  disabled := false

theorem wrappedClause_withReturns : '\r' ∉ wrappedClause ∧
    tableOfBytes? (encode (withReturns wrappedClause)) = some wrappedTable := by
  have hreturn : '\r' ∉ wrappedClause := by decide +kernel
  have htable : tableOfBytes? (encode wrappedClause) = some wrappedTable := by decide +kernel
  exact ⟨hreturn, (tableOfBytes?_withReturns hreturn).trans htable⟩

end SchemaModels.Ddl
